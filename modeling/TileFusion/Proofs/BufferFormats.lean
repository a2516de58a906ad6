import TileFusion.Proofs.Identifiers
import TileFusion.Proofs.TileBounds

/-!
# Buffers and their formats

Which operand stands behind an unpacker is decided in three places: by name in the description, by
id when the stage is lowered, and through formats when the stage is resolved. A program that is
written out of the three is only right if they agree. `Configured` says what agreement means for one
stage, and the main result is that every stage of a built pipeline has it:

> `buffers_agree_with_formats`: the buffers of a stage are declared for the operands that its
> description names, under identifiers of their own; the formats in memory that the unpackers and
> the packer are told are those of the operands; and every tile size that is passed to them, in
> words of 16 bytes, is the one of the buffer.
-/

namespace TileFusion

/-! ## What a program says about a buffer -/

namespace Slot

/-- The thread that uses a buffer. -/
def thread : Slot → Thread
  | first | second => .unpack
  | result => .pack

/-- The identifier of a buffer. -/
def bufferName : Slot → Nat → String
  | first => StageNames.bufferA
  | second => StageNames.bufferB
  | result => StageNames.bufferResult

/-- The identifier of the format in memory behind a buffer. -/
def formatName : Slot → Nat → String
  | first => StageNames.unpackSourceA
  | second => StageNames.unpackSourceB
  | result => StageNames.packTarget

end Slot

/-- A tile size that a call is given, in words. -/
structure Stride where
  stage : Nat
  slot : Slot
  words : Nat
  deriving DecidableEq, Repr

/-- The tile sizes among the arguments of a call. -/
def Call.strides : Call → List Stride
  | .unpackConfigure setup | .unpackReconfigure setup =>
    [⟨setup.stage, .first, setup.tileWordsA⟩, ⟨setup.stage, .second, setup.tileWordsB⟩]
  | .unpackMatmul stage _ _ wordsA wordsB => [⟨stage, .first, wordsA⟩, ⟨stage, .second, wordsB⟩]
  | .packConfigure stage _ _ words | .packReconfigure stage _ words => [⟨stage, .result, words⟩]
  | _ => []

/-- Everything that the program of a pipeline says about the buffers of a stage is what the registry
knows about the operands that the description names. -/
structure StageView.Configured (p : Pipeline) (v : StageView) : Prop where
  /-- The first buffer holds the first operand that is read from memory; when there is none, the
  one that is reused. -/
  first : (v.loader.fresh.head?.or v.loader.reused).bind p.registry.find? = some v.bufferA
  /-- The second buffer holds the second one, or repeats the first. -/
  second : match v.loader.fresh[1]? with
    | some name => p.registry.find? name = some v.bufferB
    | none => v.bufferB = v.bufferA
  /-- The third buffer holds the output. -/
  result : p.registry.find? v.stage.spec.output = some v.output
  /-- Each buffer is declared once, where its operand lies and with the tiles of its format. -/
  buffers : ∀ slot : Slot, ∃ unused,
    (declarationsOf (p.lower.thread slot.thread).body).filter
        (·.name = slot.bufferName v.index) =
      [.buffer (slot.bufferName v.index) (v.buffer slot).address (v.buffer slot).format.tileBytes
        unused]
  /-- The format behind it is declared once, and is the format of its operand. -/
  formats : ∀ slot : Slot, ∃ unused,
    (declarationsOf (p.lower.thread slot.thread).body).filter
        (·.name = slot.formatName v.index) =
      [.format (slot.formatName v.index) (v.buffer slot).format unused]
  /-- All tile sizes that are passed for it are those of its format. -/
  strides : ∀ (t : Thread), ∀ call ∈ callsOf (p.lower.thread t).body, ∀ x ∈ call.strides,
    x.stage = v.index → 16 * x.words = (v.buffer x.slot).format.tileBytes
  /-- And one is passed. -/
  strided : ∀ slot : Slot, ∃ call ∈ callsOf (p.lower.thread slot.thread).body,
    ∃ x ∈ call.strides, x.stage = v.index ∧ x.slot = slot

/-! ## Operands by name -/

/-- Placement leaves every name at its id. -/
theorem find?_operand (settings : Settings) (stages : List Stage) {final placed : Registry}
    (hplace : final.allocate.value = .ok placed) (hfinal : final.WellFormed) {i : Nat} {o : Operand}
    (ho : final.operand? i = some o) :
    placed.find? o.name = some ((⟨settings, stages, placed⟩ : Pipeline).operand i) := by
  obtain ⟨o', ho', hpl⟩ := operand?_of_allocate hplace ho
  unfold Pipeline.operand
  rw [ho', Option.getD_some, ← hpl.name_eq]
  exact Registry.find?_name_of_nodup (hfinal.names_of_allocate hplace) (List.mem_of_getElem? ho')

/-! ## Sources -/

/-- The formats in memory of a plan are the ones that were asked for. -/
theorem FormatRequest.sources_of_plan {r : FormatRequest} {f : FormatPlan} (h : r.plan = .ok f) :
    f.loadA.source = r.load ∧ f.loadB.source = r.secondary.getD r.load ∧
      f.storeTarget = r.store := by
  unfold FormatRequest.plan at h
  split at h
  next => simp at h
  next =>
    obtain rfl := Except.ok.inj h
    refine ⟨rfl, ?_, rfl⟩
    show (r.secondaryFormats.getD _).source = _
    unfold FormatRequest.secondaryFormats
    cases r.secondary <;> rfl

/-- Name, id and format of what stands behind the two unpackers go together. -/
theorem Resolves.exists_loaded {settings : Settings} {r : Registry} {site : Site} {a : Operand}
    {b : Option Operand} {c : Contents} {formats : FormatPlan}
    (h : Resolves settings r site a b c formats) :
    ∃ x ∈ a :: b.toList, ∃ y ∈ a :: b.toList,
      (stageOf settings r site a b c formats).unpackedA = x.id ∧
      (stageOf settings r site a b c formats).unpackedB = y.id ∧
      formats.loadA.source = x.format ∧ formats.loadB.source = y.format ∧
      site.spec.loader.fresh.head?.or site.spec.loader.reused = some x.name ∧
      match site.spec.loader.fresh[1]? with
      | some name => y.name = name
      | none => y = x := by
  obtain ⟨hloadA, hloadB, -⟩ := FormatRequest.sources_of_plan h.plan
  have hnameA : site.spec.loader.sourceA = a.name := (Registry.name_of_find? h.sourceA.1).symm
  have hnameB : site.spec.loader.sourceB = b.map (·.name) := by
    have hb := h.sourceB
    cases hs : site.spec.loader.sourceB with
    | none =>
      rw [hs] at hb
      rw [show b = none from hb]
      rfl
    | some name =>
      rw [hs] at hb
      obtain ⟨o, rfl, ho⟩ := hb
      rw [Option.map_some, Registry.name_of_find? ho.1]
  unfold formatRequest at hloadA hloadB
  simp only [Loader.fresh, Loader.reused, Stage.unpackedA, Stage.unpackedB, Stage.fresh, stageOf,
    hnameA, hnameB]
  cases hreuse : site.spec.loader.reuse <;> cases b <;>
    simp only [hreuse, loadFormats, Option.getD_none, Option.getD_some] at hloadA hloadB
  -- without a second source, or with the second one in the accumulator, there is only `a`
  case none.none | sourceA.none | sourceB.none | sourceB.some =>
    exact ⟨a, by simp, a, by simp, rfl, rfl, hloadA, hloadB, rfl, rfl⟩
  case none.some o => exact ⟨a, by simp, o, by simp, rfl, rfl, hloadA, hloadB, rfl, rfl⟩
  case sourceA.some o => exact ⟨o, by simp, o, by simp, rfl, rfl, hloadA, hloadB, rfl, rfl⟩

/-! ## Tile sizes -/

theorem tileBytes_eq (f : DataFormat) : 16 * f.tileWords = f.tileBytes := by
  cases f <;> rfl

namespace StageView

/-- The format in memory that the plan of a stage has for a buffer. -/
def planned (v : StageView) : Slot → DataFormat
  | .first => v.stage.formats.loadA.source
  | .second => v.stage.formats.loadB.source
  | .result => v.stage.formats.storeTarget

theorem buffer_mem_declarations (v : StageView) (slot : Slot) :
    .buffer (slot.bufferName v.index) (v.buffer slot).address (v.buffer slot).format.tileBytes
      (slot.thread == .unpack) ∈ v.declarations slot.thread := by
  cases slot <;> simp [declarations, Slot.thread, Slot.bufferName, buffer]

theorem format_mem_declarations (v : StageView) (slot : Slot) :
    .format (slot.formatName v.index) (v.planned slot) (slot.thread == .unpack) ∈
      v.declarations slot.thread := by
  cases slot <;> simp [declarations, Slot.thread, Slot.formatName, planned]

/-- The arguments of a call that are tile sizes of the stage follow its plan. -/
def Planned (v : StageView) (call : Call) : Prop :=
  ∀ x ∈ call.strides, x.stage = v.index ∧ x.words = (v.planned x.slot).tileWords

theorem planned_of_strides_nil {v : StageView} {call : Call} (h : call.strides = []) :
    v.Planned call := by
  intro x hx
  rw [h] at hx
  simp at hx

/-- Of the calls that bring tiles in, only the one of a matrix product is told tile sizes. -/
theorem planned_unpacking (v : StageView) :
    v.Planned v.unpacking.init ∧ ∀ call ∈ v.unpacking.perTile.calls, v.Planned call := by
  obtain ⟨-, hinit, hstmt⟩ | ⟨-, pool, dim, -, hinit, hstmt⟩ | ⟨-, hinit, hstmt⟩ |
    ⟨-, -, hinit, hstmt⟩ | ⟨-, -, hinit, hstmt⟩ := v.unpacking_cases <;>
    rw [hinit, hstmt] <;> simp [Planned, Call.strides, planned]

theorem planned_contribution (v : StageView) (t : Thread) :
    ∀ call ∈ callsOf (v.contribution t).body, v.Planned call := by
  have hnone : ∀ {call : Call}, call.strides = [] → v.Planned call := planned_of_strides_nil
  cases t with
  | unpack =>
    obtain ⟨hinit, htile⟩ := v.planned_unpacking
    refine forall_unpack ?_ ?_ (hnone rfl) hinit htile <;>
      simp [Planned, Call.strides, unpackSetup, planned]
  | math =>
    refine forall_math (hnone rfl) (hnone rfl) (hnone rfl) (hnone rfl) ?_ ?_ (hnone rfl)
    · unfold arithmeticSection
      cases ha : v.stage.spec.arithmetic <;> simp [ha, Planned, Call.strides]
    · intro unit _
      unfold nonlinearSection
      cases unit <;> simp [Planned, Call.strides]
  | pack =>
    refine forall_pack (fun _ => ?_) (fun _ => ?_) (hnone rfl) (fun _ _ => hnone rfl) (hnone rfl)
      (hnone rfl) (hnone rfl) (hnone rfl) (hnone rfl) <;> simp [Planned, Call.strides, planned]

/-- Each buffer is configured. -/
theorem exists_stride (v : StageView) (slot : Slot) :
    ∃ call ∈ callsOf (v.contribution slot.thread).body, ∃ x ∈ call.strides, x.slot = slot := by
  cases slot with
  | first | second =>
    rw [show Slot.thread _ = .unpack from rfl, calls_unpack]
    refine ⟨_, List.mem_cons_self .., ?_⟩
    split <;> simp [Call.strides]
  | result =>
    obtain ⟨front, loop, back, hbody, hfront, -, -⟩ := v.exists_packLoop
    rw [show Slot.thread .result = .pack from rfl, hbody, callsOf_append, hfront]
    refine ⟨_, List.mem_append_left _ (List.mem_cons_self ..), ?_⟩
    split <;> simp [Call.strides]

end StageView

/-! ## In a pipeline -/

section Built

variable {r : Registry} {specs : List StageSpec} {settings : Settings} {p : Pipeline}

/-- The operands that a description names stand behind the buffers, in the formats of the plan. -/
theorem operands_of_build (hr : r.Declared) (hp : (Pipeline.build r specs settings).value = .ok p) :
    ∀ v ∈ p.views,
      (v.loader.fresh.head?.or v.loader.reused).bind p.registry.find? = some v.bufferA ∧
      (match v.loader.fresh[1]? with
        | some name => p.registry.find? name = some v.bufferB
        | none => v.bufferB = v.bufferA) ∧
      p.registry.find? v.stage.spec.output = some v.output ∧
      ∀ slot, v.planned slot = (v.buffer slot).format := by
  obtain ⟨-, stages, final, placed, hall, hplace, rfl⟩ := build_eq_ok_iff.mp hp
  have hfinal := hall.wellFormed hr.wellFormed
  intro v hv
  obtain ⟨s, hs, rfl⟩ := List.mem_map.mp hv
  obtain ⟨r', site, a, b, c, formats, hres, rfl, ha, hb, o, ho, hoc, hname⟩ :=
    hall.exists_resolves hr.wellFormed s hs
  have hkept : ∀ w ∈ a :: b.toList, final.operand? w.id = some w := by
    refine List.forall_mem_cons.mpr ⟨ha, fun w hw => hb w ?_⟩
    simpa using hw
  obtain ⟨x, hx, y, hy, hA, hB, hformatA, hformatB, hfirst, hsecond⟩ := hres.exists_loaded
  have hstore := (FormatRequest.sources_of_plan hres.plan).2.2
  generalize hview : (⟨settings, stages, placed⟩ : Pipeline).view
    (stageOf settings r' site a b c formats) = v
  have hbufferA : v.bufferA = (⟨settings, stages, placed⟩ : Pipeline).operand x.id := by
    rw [← hview, ← hA]
    rfl
  have hbufferB : v.bufferB = (⟨settings, stages, placed⟩ : Pipeline).operand y.id := by
    rw [← hview, ← hB]
    rfl
  have hspec : v.stage.spec = site.spec := by rw [← hview]; rfl
  have hplan : v.stage.formats = formats := by rw [← hview]; rfl
  have hformat : ∀ {i : Nat} {w : Operand}, final.operand? i = some w →
      ((⟨settings, stages, placed⟩ : Pipeline).operand i).format = w.format :=
    fun hw => Operand.format_congr (contents_operand settings stages hplace hw)
  refine ⟨?_, ?_, ?_, ?_⟩
  · rw [StageView.loader, hspec, hfirst, hbufferA, Option.bind_some]
    exact find?_operand settings stages hplace hfinal (hkept x hx)
  · rw [StageView.loader, hspec, hbufferA, hbufferB]
    split at hsecond
    next =>
      rw [← hsecond]
      exact find?_operand settings stages hplace hfinal (hkept y hy)
    next => rw [hsecond]
  · rw [hspec, ← show o.name = site.spec.output from hname, ← hview]
    exact find?_operand settings stages hplace hfinal ho
  · intro slot
    cases slot with
    | first =>
      show v.stage.formats.loadA.source = v.bufferA.format
      rw [hplan, hbufferA, hformat (hkept x hx), hformatA]
    | second =>
      show v.stage.formats.loadB.source = v.bufferB.format
      rw [hplan, hbufferB, hformat (hkept y hy), hformatB]
    | result =>
      show v.stage.formats.storeTarget = v.output.format
      have houtput : v.output.format = c.format := by
        rw [← hview, ← Operand.format_of_contents hoc, ← hformat ho]
        rfl
      rw [hplan, hstore, houtput, Contents.format_of? hres.contents]
      rfl

/-- A call that is told tile sizes of a stage belongs to that stage. -/
theorem planned_of_build (hp : (Pipeline.build r specs settings).value = .ok p) {v : StageView}
    (hv : v ∈ p.views) {t : Thread} {call : Call} (hcall : call ∈ callsOf (p.lower.thread t).body)
    {x : Stride} (hx : x ∈ call.strides) (hstage : x.stage = v.index) :
    x.words = (v.planned x.slot).tileWords := by
  rw [p.body_thread, callsOf_flatMap, List.mem_flatMap] at hcall
  obtain ⟨w, hw, hcall⟩ := hcall
  obtain ⟨hindex, hwords⟩ := w.planned_contribution t call hcall x hx
  obtain rfl := (ordered_of_build hp).eq_of_index hv hw (hstage.symm.trans hindex)
  exact hwords

/-- **The buffers of a program are declared and configured for the operands that the stages name,
in the formats of these operands.** -/
theorem buffers_agree_with_formats (hr : r.Declared)
    (hp : (Pipeline.build r specs settings).value = .ok p) : ∀ v ∈ p.views, v.Configured p := by
  intro v hv
  have hord := ordered_of_build hp
  obtain ⟨hfirst, hsecond, hresult, hformat⟩ := operands_of_build hr hp v hv
  refine ⟨hfirst, hsecond, hresult, ?_, ?_, ?_, ?_⟩
  · intro slot
    exact ⟨_, hord.filter_declarations hv (v.buffer_mem_declarations slot)⟩
  · intro slot
    rw [← hformat]
    exact ⟨_, hord.filter_declarations hv (v.format_mem_declarations slot)⟩
  · intro t call hcall x hx hstage
    rw [planned_of_build hp hv hcall hx hstage, tileBytes_eq, hformat]
  · intro slot
    obtain ⟨call, hcall, x, hx, hslot⟩ := v.exists_stride slot
    refine ⟨call, ?_, x, hx, (v.planned_contribution _ call hcall x hx).1, hslot⟩
    rw [p.body_thread, callsOf_flatMap, List.mem_flatMap]
    exact ⟨v, hv, hcall⟩

end Built

/-- The product takes the sum from the accumulator, so both of its unpackers read `a`. -/
theorem buffers_agree_with_formats_fused :
    ∃ p, (Pipeline.build (columnRegistry ⟨⟨64, 64⟩, .float16b, 4, 8192⟩) fusedSpecs
        fusedSettings).value = .ok p ∧
      ∃ v ∈ p.views, v.loader.fresh = ["a"] ∧ v.loader.reused = some "sum" ∧ v.Configured p := by
  have hr : (columnRegistry ⟨⟨64, 64⟩, .float16b, 4, 8192⟩).Declared :=
    .input "b" ⟨64, 64⟩ .float16b none declared_columnInput rfl
  obtain ⟨p, hp, hviews⟩ := exists_build_of_any (columnRegistry ⟨⟨64, 64⟩, .float16b, 4, 8192⟩)
    fusedSpecs fusedSettings
    (fun p => p.views.any fun v => v.loader.fresh == ["a"] && v.loader.reused == some "sum")
    (by decide +kernel)
  obtain ⟨v, hv, hcheck⟩ := List.any_eq_true.mp hviews
  simp only [Bool.and_eq_true, beq_iff_eq] at hcheck
  exact ⟨p, hp, v, hv, hcheck.1, hcheck.2, buffers_agree_with_formats hr hp v hv⟩

end TileFusion
