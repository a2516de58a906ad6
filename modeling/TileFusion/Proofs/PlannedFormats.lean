import TileFusion.Proofs.BufferFormats
import TileFusion.Proofs.FusedForms

/-!
# Planned formats and the calls that deliver them

The formats of a stage are planned from what its description asks for, before anything is known of
the calls that it will be lowered to. `request_of_build` brings the two together: after a build the
plan of every stage is still the plan for the operands that the stage names.

The one choice that both sides make is whether 32-bit floats go past the source registers, which
hold 19 bits. The plan leaves them as they are when the description says so, but of the five calls
that bring tiles in only one can be told.

> `float32_registers_iff`: a stage that plans `float32` behind an unpacker delivers it straight to
> the accumulator, unless it tilizes or reads two operands from memory.
-/

namespace TileFusion

/-! ## What a stage asks for -/

/-- Shape and format behind every name of a built pipeline. -/
def Pipeline.outline (p : Pipeline) (name : String) : Option Outline :=
  (p.registry.find? name).map fun o => ⟨o.dims, o.format⟩

/-- What the formats of a stage depend on, by the operands that it names. -/
def Pipeline.request (p : Pipeline) (s : Stage) : FormatRequest :=
  requestOf p.settings p.outline s.spec

section Built

variable {r : Registry} {specs : List StageSpec} {settings : Settings} {p : Pipeline}

/-- Placement leaves every format under its name. -/
theorem formatOf_outline (settings : Settings) (stages : List Stage) {final placed : Registry}
    (hplace : final.allocate.value = .ok placed) (hfinal : final.WellFormed) {i : Nat} {o : Operand}
    (ho : final.operand? i = some o) :
    formatOf (Pipeline.outline ⟨settings, stages, placed⟩) o.name = o.format := by
  unfold formatOf Pipeline.outline
  rw [find?_operand settings stages hplace hfinal ho]
  exact Operand.format_congr (contents_operand settings stages hplace ho)

/-- The plan of a stage, and the width of its accumulator, are those of the operands that it names;
and its output has the format that its description asks for. -/
theorem request_of_build (hr : r.Declared) (hp : (Pipeline.build r specs settings).value = .ok p) :
    ∀ v ∈ p.views, (p.request v.stage).plan = .ok v.stage.formats ∧
      v.stage.wideDest = needsWideDest (p.request v.stage) ∧
      formatOf p.outline v.stage.spec.output = v.stage.spec.outputFormat := by
  obtain ⟨-, stages, final, placed, hall, hplace, rfl⟩ := build_eq_ok_iff.mp hp
  have hfinal := hall.wellFormed hr.wellFormed
  intro v hv
  obtain ⟨s, hs, rfl⟩ := List.mem_map.mp hv
  obtain ⟨r', site, a, b, c, formats, hres, rfl, ha, hb, o, ho, hoc, hname⟩ :=
    hall.exists_resolves hr.wellFormed s hs
  have hformat : ∀ {i : Nat} {x : Operand}, final.operand? i = some x →
      formatOf (Pipeline.outline ⟨settings, stages, placed⟩) x.name = x.format :=
    fun hx => formatOf_outline settings stages hplace hfinal hx
  have hsourceA : formatOf (Pipeline.outline ⟨settings, stages, placed⟩)
      site.spec.loader.sourceA = a.format := by
    rw [← Registry.name_of_find? hres.sourceA.1]
    exact hformat ha
  have hsourceB : site.spec.loader.sourceB.map
      (formatOf (Pipeline.outline ⟨settings, stages, placed⟩)) = b.map (·.format) := by
    have hsecond := hres.sourceB
    cases hn : site.spec.loader.sourceB with
    | none =>
      rw [hn] at hsecond
      rw [show b = none from hsecond]
      rfl
    | some name =>
      rw [hn] at hsecond
      obtain ⟨x, rfl, hx⟩ := hsecond
      rw [Option.map_some, Option.map_some, ← Registry.name_of_find? hx.1, hformat (hb x rfl)]
  have hrequest : Pipeline.request ⟨settings, stages, placed⟩
      (stageOf settings r' site a b c formats) = formatRequest settings site.spec a b :=
    (formatRequest_eq_requestOf settings hsourceA hsourceB).symm
  show (Pipeline.request ⟨settings, stages, placed⟩ (stageOf settings r' site a b c formats)).plan =
      .ok formats ∧ needsWideDest (formatRequest settings site.spec a b) = needsWideDest
        (Pipeline.request ⟨settings, stages, placed⟩ (stageOf settings r' site a b c formats)) ∧ _
  rw [hrequest]
  refine ⟨hres.plan, rfl, ?_⟩
  show formatOf _ (stageOf settings r' site a b c formats).spec.output = site.spec.outputFormat
  rw [← hname, hformat ho, Operand.format_of_contents hoc, Contents.format_of? hres.contents]

end Built

/-! ## Register formats -/

/-- A plan is filled in from its request, field by field. -/
theorem FormatRequest.eq_of_plan {r : FormatRequest} {f : FormatPlan} (h : r.plan = .ok f) :
    f = ⟨r.load, r.loadTarget, r.secondaryFormats, r.compute, r.storeSource, r.store⟩ := by
  unfold FormatRequest.plan at h
  split at h
  next => simp at h
  next => exact (Except.ok.inj h).symm

/-- Only what is 32-bit float in memory stays so in a register, and only past the registers. -/
theorem loadTarget_eq_float32_iff {source store : DataFormat} {accumulate unpackToDest : Bool} :
    loadTarget source store accumulate unpackToDest = .float32 ↔
      unpackToDest = true ∧ source = .float32 := by
  unfold loadTarget
  by_cases hf : source = .float32
  · subst hf
    cases unpackToDest <;> cases accumulate <;> cases store.hasWideExponent <;>
      simp [DataFormat.isMicroScaling]
  · by_cases hm : source.isMicroScaling = true <;> simp [hf, hm]

/-- Names of the operands behind the unpackers: those that are read from memory, or the reused one
when there are none. -/
def Loader.unpacked (l : Loader) : List String :=
  match l.fresh with
  | [] => [l.sourceA]
  | names => names

/-- The operands behind the unpackers are what the request is made of. -/
theorem exists_unpacked_iff (settings : Settings) (known : String → Option Outline) (s : StageSpec)
    (P : DataFormat → Prop) :
    (∃ name ∈ s.loader.unpacked, P (formatOf known name)) ↔
      P (requestOf settings known s).load ∨
        ∃ x, (requestOf settings known s).secondary = some x ∧ P x := by
  have hlength : s.loader.fresh.length ≤ 2 := by
    unfold Loader.fresh
    cases s.loader.reuse <;> cases s.loader.sourceB <;> simp
  unfold Loader.unpacked requestOf
  match hfresh : s.loader.fresh with
  | [] => simp
  | [x] => simp
  | [x, y] => simp
  | x :: y :: z :: rest =>
    rw [hfresh] at hlength
    simp at hlength

/-! ## Calls that bring tiles in -/

namespace StageView

/-- Some unpacker of the stage is to write 32-bit floats. -/
def PlansFloat32 (v : StageView) : Prop :=
  v.stage.formats.loadTarget = .float32 ∨
    ∃ x, v.stage.formats.secondary = some x ∧ x.target = .float32

/-- The calls of the stage that bring a tile in. -/
def loads (v : StageView) : List Call :=
  (callsOf (v.contribution .unpack).body).filter (·.effect = .load)

/-- Such a call writes past the source registers. -/
def LoadsToDest (v : StageView) : Prop :=
  ∃ reuse, v.loads = [.unpackSingle v.index reuse true]

variable {v : StageView}

theorem loads_eq (v : StageView) (hinit : v.unpacking.init.effect ≠ .load) :
    v.loads = v.unpacking.perTile.calls.filter (·.effect = .load) := by
  unfold loads
  rw [calls_unpack, List.filter_cons_of_neg (by split <;> simp), List.filter_append,
    List.filter_cons_of_neg (by rw [decide_eq_true_eq]; exact hinit)]
  split <;> simp

/-- One call brings a tile in. It is the one that can write past the registers exactly when the
stage reads at most one operand from memory and does not tilize. -/
theorem exists_loads (hc : Combination v.settings.platform v.stage.spec) :
    ∃ call, v.loads = [call] ∧
      ((∃ reuse, call = .unpackSingle v.index reuse true) ↔
        v.stage.spec.unpackToDest = true ∧ v.loader.kind ≠ .tilize ∧ v.loader.fresh.length ≠ 2) := by
  have hcount : v.loader.fresh.length = freshWanted v.stage.spec := hc.count
  have hfeeds : feeds v.loader.kind v.stage.spec.arithmetic = true := hc.feeds
  obtain ⟨hk, hinit, hstmt⟩ | ⟨hk, pool, dim, -, hinit, hstmt⟩ | ⟨hk, hinit, hstmt⟩ |
    ⟨hk, hlen, hinit, hstmt⟩ | ⟨hk, hlen, hinit, hstmt⟩ := v.unpacking_cases <;>
    rw [v.loads_eq (by simp [hinit]), hstmt]
  · exact ⟨_, rfl, by simp [hk]⟩
  -- reductions and products read two operands, whatever their loaders are
  · refine ⟨_, rfl, ?_⟩
    cases ha : v.stage.spec.arithmetic <;> simp [hk, ha, feeds] at hfeeds
    simp [hcount, freshWanted, ha]
  · refine ⟨_, rfl, ?_⟩
    cases ha : v.stage.spec.arithmetic <;> simp [hk, ha, feeds] at hfeeds
    simp [hcount, freshWanted, ha]
  · exact ⟨_, rfl, by simp [hlen]⟩
  · have hne : v.loader.kind ≠ .tilize := by
      obtain hk | ⟨s, hk⟩ := hk <;> simp [hk]
    exact ⟨_, rfl, by simp [hne, hlen]⟩

end StageView

/-! ## In a pipeline -/

/-- The stage is to unpack 32-bit floats straight into the accumulator, but its tiles come in
through a call that knows only the source registers. -/
structure Pipeline.Bypassed (p : Pipeline) (v : StageView) : Prop where
  asked : v.stage.spec.unpackToDest = true
  float32 : ∃ name ∈ v.loader.unpacked, formatOf p.outline name = .float32
  deaf : v.loader.kind = .tilize ∨ v.loader.fresh.length = 2

section Built

variable {r : Registry} {specs : List StageSpec} {settings : Settings} {p : Pipeline}

theorem plansFloat32_iff (hr : r.Declared) (hp : (Pipeline.build r specs settings).value = .ok p)
    {v : StageView} (hv : v ∈ p.views) :
    v.PlansFloat32 ↔ v.stage.spec.unpackToDest = true ∧
      ∃ name ∈ v.loader.unpacked, formatOf p.outline name = .float32 := by
  have hplan := FormatRequest.eq_of_plan (request_of_build hr hp v hv).1
  have hunpacked := exists_unpacked_iff p.settings p.outline v.stage.spec (· = .float32)
  rw [StageView.loader, hunpacked]
  unfold StageView.PlansFloat32
  rw [hplan]
  show (loadTarget (p.request v.stage).load _ _ v.stage.spec.unpackToDest = .float32 ∨
    ∃ x, (p.request v.stage).secondaryFormats = some x ∧ x.target = .float32) ↔ _
  rw [loadTarget_eq_float32_iff]
  have hsecond : (∃ x, (p.request v.stage).secondaryFormats = some x ∧ x.target = .float32) ↔
      v.stage.spec.unpackToDest = true ∧ ∃ x, (p.request v.stage).secondary = some x ∧
        x = .float32 := by
    unfold FormatRequest.secondaryFormats
    cases (p.request v.stage).secondary with
    | none => simp
    | some x =>
      have htarget : loadTarget x (p.request v.stage).store (p.request v.stage).accumulate
          (p.request v.stage).unpackToDest = .float32 ↔
            v.stage.spec.unpackToDest = true ∧ x = .float32 := loadTarget_eq_float32_iff
      simpa using htarget
  rw [hsecond]
  exact and_or_left.symm

/-- **A stage delivers the 32-bit floats that it plans to the accumulator, unless it tilizes or
reads two operands from memory.** -/
theorem float32_registers_iff (hr : r.Declared)
    (hp : (Pipeline.build r specs settings).value = .ok p) :
    (p.lower.thread .unpack).body = p.views.flatMap (fun v => (v.contribution .unpack).body) ∧
      ∀ v ∈ p.views, (∃ call, v.loads = [call]) ∧
        (v.PlansFloat32 ↔ v.stage.spec.unpackToDest = true ∧
          ∃ name ∈ v.loader.unpacked, formatOf p.outline name = .float32) ∧
        ((v.PlansFloat32 → v.LoadsToDest) ↔ ¬p.Bypassed v) := by
  refine ⟨p.body_thread .unpack, fun v hv => ?_⟩
  have hplans := plansFloat32_iff hr hp hv
  obtain ⟨call, hloads, hcall⟩ := StageView.exists_loads (combination_of_build hp v hv)
  refine ⟨⟨call, hloads⟩, hplans, ?_⟩
  have hdest : v.LoadsToDest ↔ ∃ reuse, call = .unpackSingle v.index reuse true := by
    unfold StageView.LoadsToDest
    rw [hloads]
    simp
  rw [hdest, hcall, hplans]
  constructor
  · intro himp hbypassed
    obtain ⟨-, hne, hlen⟩ := himp ⟨hbypassed.asked, hbypassed.float32⟩
    exact hbypassed.deaf.elim hne hlen
  · intro hnot ⟨hasked, hfloat⟩
    refine ⟨hasked, fun hk => ?_, fun hlen => ?_⟩
    · exact hnot ⟨hasked, hfloat, .inl hk⟩
    · exact hnot ⟨hasked, hfloat, .inr hlen⟩

end Built

/-! ## A copy and a sum -/

/-- Two matrices of 32-bit floats. -/
def float32Registry : Registry :=
  ⟨[⟨0, "a", .input, none, .floating, some ⟨⟨32, 32⟩, .float32, 1, 4096⟩⟩,
    ⟨1, "b", .input, none, .floating, some ⟨⟨32, 32⟩, .float32, 1, 4096⟩⟩]⟩

theorem declared_float32Registry : float32Registry.Declared :=
  .input "b" ⟨32, 32⟩ .float32 none (.input "a" ⟨32, 32⟩ .float32 none .empty rfl) rfl

/-- Reads what it names straight into the accumulator. -/
def unpackedSpec (arithmetic : Arithmetic) (second : Option String) : StageSpec where
  loader := ⟨.direct, "a", second, .none, false, false⟩
  arithmetic := arithmetic
  nonlinear := []
  output := "y"
  outputFormat := .float16b
  fidelity := .lofi
  unpackToDest := true

/-- A single operand does go to the accumulator. -/
theorem float32_registers_iff_copy :
    ∃ p, (Pipeline.build float32Registry [unpackedSpec .datacopy none] columnSettings).value =
        .ok p ∧
      ∃ v ∈ p.views, v.PlansFloat32 ∧ v.LoadsToDest := by
  obtain ⟨p, hp, hviews⟩ := exists_build_of_any float32Registry
    [unpackedSpec .datacopy none] columnSettings
    (fun p => p.views.any fun v => v.stage.formats.loadTarget == .float32 &&
      v.loader.kind == .direct && v.loader.fresh.length == 1) (by decide +kernel)
  obtain ⟨v, hv, hcheck⟩ := List.any_eq_true.mp hviews
  simp only [Bool.and_eq_true, beq_iff_eq] at hcheck
  obtain ⟨⟨hplans, hkind⟩, hlen⟩ := hcheck
  refine ⟨p, hp, v, hv, .inl hplans, ?_⟩
  apply (((float32_registers_iff declared_float32Registry hp).2 v hv).2.2.mpr ?_) (.inl hplans)
  intro hbypassed
  obtain hk | hk := hbypassed.deaf
  · rw [hkind] at hk
    cases hk
  · omega

/-- The sum of two operands is planned in 32-bit floats, but goes through the source registers. -/
theorem float32_sum_bypassed :
    ∃ p, float32Registry.Declared ∧
      (Pipeline.build float32Registry [unpackedSpec (.eltwise .add) (some "b")]
        columnSettings).value = .ok p ∧
      ∃ v ∈ p.views, v.PlansFloat32 ∧ ¬v.LoadsToDest := by
  obtain ⟨p, hp, hviews⟩ := exists_build_of_any float32Registry
    [unpackedSpec (.eltwise .add) (some "b")] columnSettings
    (fun p => p.views.any fun v => v.stage.formats.loadTarget == .float32 &&
      v.loader.fresh.length == 2) (by decide +kernel)
  obtain ⟨v, hv, hcheck⟩ := List.any_eq_true.mp hviews
  simp only [Bool.and_eq_true, beq_iff_eq] at hcheck
  refine ⟨p, declared_float32Registry, hp, v, hv, .inl hcheck.1, ?_⟩
  rintro ⟨reuse, hdest⟩
  obtain ⟨call, hloads, hcall⟩ := StageView.exists_loads (combination_of_build hp v hv)
  obtain rfl : call = .unpackSingle v.index reuse true := by simpa [hloads] using hdest
  exact (hcall.mp ⟨reuse, rfl⟩).2.2 hcheck.2

end TileFusion
