import TileFusion.Proofs.MemoryLayout
import TileFusion.Proofs.Schedule
import TileFusion.Proofs.Validity

/-!
# The stages of a built pipeline

What lowering relies on without checking it. The stages of a built pipeline are numbered from 0 on
and their units go together (`Ordered`); and the operand that an id stands for after placement has
the shape that the stage was resolved with, so that the shapes of a stage's three buffers are
related as its arithmetic unit demands (`Measured`).
-/

namespace TileFusion

/-- The views of the stages, in order. -/
def Pipeline.views (p : Pipeline) : List StageView :=
  p.stages.map p.view

/-- The calls of a stage in a thread. -/
def StageView.events (v : StageView) : Thread → List Event
  | .unpack => v.unpackEvents
  | .math => v.mathEvents
  | .pack => v.packEvents

/-- The threads make the calls of the stages, one stage after the other. -/
theorem Pipeline.events_thread (p : Pipeline) (t : Thread) :
    (p.lower.thread t).events = p.views.flatMap (·.events t) := by
  cases t <;> simp only [lower, Program.thread, events_ofSections, List.flatMap_map, views] <;> rfl

/-- The stages are numbered in order, and their units go together. -/
structure Pipeline.Ordered (p : Pipeline) : Prop where
  index : p.views.map (·.index) = List.range' 0 p.views.length
  isLast : ∀ v ∈ p.views, v.isLast = true ↔ v.index + 1 = p.views.length
  fed : ∀ v ∈ p.views, v.Fed

/-- The units of every stage go together. -/
theorem combination_of_build {r : Registry} {specs : List StageSpec} {settings : Settings}
    {p : Pipeline} (hp : (Pipeline.build r specs settings).value = .ok p) :
    ∀ v ∈ p.views, Combination v.settings.platform v.stage.spec := by
  obtain ⟨-, stages, final, placed, hall, -, rfl⟩ := build_eq_ok_iff.mp hp
  intro v hv
  obtain ⟨s, hs, rfl⟩ := List.mem_map.mp hv
  refine hall.forall_mem (P := fun s => Combination settings.platform s.spec) ?_ s hs
  intro r site a b c formats hres
  exact ((descriptionCauses_eq_nil_iff _ _).mp hres.described).2

theorem ordered_of_build {r : Registry} {specs : List StageSpec} {settings : Settings}
    {p : Pipeline} (hp : (Pipeline.build r specs settings).value = .ok p) : p.Ordered := by
  have hcomb := combination_of_build hp
  obtain ⟨-, stages, final, placed, hall, -, rfl⟩ := build_eq_ok_iff.mp hp
  refine ⟨?_, ?_, fun v hv => (hcomb v hv).feeds⟩
  · rw [Pipeline.views, List.map_map, List.length_map]
    exact hall.index_range
  · intro v hv
    obtain ⟨s, hs, rfl⟩ := List.mem_map.mp hv
    simp [Pipeline.views, Pipeline.view, Pipeline.isLast, StageView.index]

theorem Pipeline.Ordered.nodup_index {p : Pipeline} (h : p.Ordered) :
    (p.views.map (·.index)).Nodup := by
  rw [h.index]
  exact List.nodup_range'

/-- A stage of a pipeline is known by its number. -/
theorem Pipeline.Ordered.eq_of_index {p : Pipeline} (h : p.Ordered) {v w : StageView}
    (hv : v ∈ p.views) (hw : w ∈ p.views) (hvw : v.index = w.index) : v = w :=
  List.inj_on_of_nodup_map h.nodup_index hv hw hvw

/-! ## Operands keep what they hold -/

/-- A settled operand stands at its id until the end. -/
theorem Registry.Extends.operand?_eq {r final : Registry} (h : r.Extends final)
    (hf : final.WellFormed) {name : String} {o : Operand} (ho : Settled r name o) :
    final.operand? o.id = some o := by
  obtain ⟨o', hfind, -, -, -, hfinal⟩ := h.kept name o ho.1
  rw [hfinal ho.2] at hfind
  exact hf.operand?_id (Registry.mem_of_find? hfind)

/-- The output of a stage is settled behind it. -/
theorem Registry.settled_settle {r : Registry} (hr : r.WellFormed) (site : Site) (c : Contents) :
    Settled (r.settle site c) site.spec.output (r.settledOutput site c) := by
  refine ⟨?_, ?_⟩
  · rw [Registry.find?_settle hr, if_pos rfl]
  · rw [Operand.isResolved, Registry.contents_settledOutput]
    rfl

/-- Where the stages of a build come from: each was resolved, and its operands are still as they
were then. -/
theorem ResolvesAll.exists_resolves {settings : Settings} {r final : Registry} {sites : List Site}
    {stages : List Stage} (h : ResolvesAll settings r sites stages final) (hr : r.WellFormed) :
    ∀ s ∈ stages, ∃ r' site a b c formats, Resolves settings r' site a b c formats ∧
      s = stageOf settings r' site a b c formats ∧ final.operand? a.id = some a ∧
      (∀ o, b = some o → final.operand? o.id = some o) ∧
      ∃ o, final.operand? s.output = some o ∧ o.contents = some c ∧ o.name = s.spec.output := by
  induction h with
  | nil => simp
  | @cons r final site rest a b c formats stages hsite hrest ih =>
    have hsettled := hsite.wellFormed hr
    have hfinal := hrest.wellFormed hsettled
    have hext := hrest.extends hsettled
    have hall := (Registry.extends_settle hr hsite.vacant c).trans hext
    have hout := Registry.settled_settle hr site c
    -- sources and output are settled behind this stage, and later stages keep them
    refine List.forall_mem_cons.mpr ⟨⟨r, site, a, b, c, formats, hsite, rfl, ?_, ?_, ?_⟩, ?_⟩
    · exact hall.operand?_eq hfinal hsite.sourceA
    · rintro o rfl
      have hb := hsite.sourceB
      cases hn : site.spec.loader.sourceB with
      | none =>
        rw [hn] at hb
        simp [SettledSecond] at hb
      | some name =>
        rw [hn] at hb
        obtain ⟨_, ⟨⟩, ho⟩ := hb
        exact hall.operand?_eq hfinal ho
    · exact ⟨_, hext.operand?_eq hfinal hout, Registry.contents_settledOutput ..,
        Registry.name_of_find? hout.1⟩
    · exact ih hsettled

theorem contents_operand (settings : Settings) (stages : List Stage) {final placed : Registry}
    (hplace : final.allocate.value = .ok placed) {i : Nat} {o : Operand}
    (ho : final.operand? i = some o) :
    ((⟨settings, stages, placed⟩ : Pipeline).operand i).contents = o.contents := by
  obtain ⟨o', ho', hpl⟩ := operand?_of_allocate hplace ho
  unfold Pipeline.operand
  rw [ho', Option.getD_some]
  exact hpl.contents_eq

theorem Operand.dims_congr {o o' : Operand} (h : o.contents = o'.contents) : o.dims = o'.dims := by
  rw [Operand.dims, h, Operand.dims]

theorem Operand.format_congr {o o' : Operand} (h : o.contents = o'.contents) :
    o.format = o'.format := by
  rw [Operand.format, h, Operand.format]

theorem Operand.tiles_congr {o o' : Operand} (h : o.contents = o'.contents) :
    o.tiles = o'.tiles := by
  rw [Operand.tiles, h, Operand.tiles]

/-! ## Shapes of the buffers -/

/-- The number of tiles is that of the shape. -/
def Operand.Counted (o : Operand) : Prop :=
  o.tiles = o.dims.tileRows * o.dims.tileCols

theorem Operand.Sound.counted {o : Operand} (h : o.Sound) : o.Counted := by
  unfold Operand.Counted Operand.tiles Operand.dims
  cases hc : o.contents with
  | none => rfl
  | some c =>
    obtain ⟨-, -, hc'⟩ := Contents.of?_eq_some_iff.mp (h.contents_eq c hc)
    show c.tiles = c.dims.tileRows * c.dims.tileCols
    exact congrArg Contents.tiles hc'

theorem counted_congr {o o' : Operand} (h : o.contents = o'.contents) (ho : o'.Counted) :
    o.Counted := by
  unfold Operand.Counted at *
  rw [Operand.tiles_congr h, Operand.dims_congr h, ho]

theorem Dims.Whole.tileCols_eq {d : Dims} (h : d.Whole) :
    d.tileCols = d.cols / tileSide ∧ 0 < d.cols / tileSide := by
  obtain ⟨-, hpos, -, k, hk⟩ := h
  unfold Dims.tileCols tileSide at *
  omega

/-- The shapes behind the buffers of a stage: the first operand is shaped like the output, and so is
the second one of an elementwise operation, unless it is a scalar; a matrix product multiplies. -/
structure StageView.Measured (v : StageView) : Prop where
  combination : Combination v.settings.platform v.stage.spec
  countedA : v.bufferA.Counted
  countedB : v.bufferB.Counted
  countedOutput : v.output.Counted
  wholeA : v.bufferA.dims.Whole
  wholeB : v.bufferB.dims.Whole
  copied : v.stage.spec.arithmetic ≠ .matmul → v.bufferA.dims = v.output.dims
  paired : ∀ op, v.stage.spec.arithmetic = .eltwise op → v.loader.fresh.length = 2 →
    v.loader.kind.spread ≠ .scalar → v.bufferB.dims = v.output.dims
  product : v.stage.spec.arithmetic = .matmul →
    v.output.dims = ⟨v.bufferA.dims.rows, v.bufferB.dims.cols⟩ ∧
      v.bufferA.dims.cols = v.bufferB.dims.rows ∧ v.stage.innerTiles = v.bufferA.dims.tileCols

theorem stageShape_of_ne_matmul {s : StageSpec} {a : Operand} {b : Option Operand}
    (h : s.arithmetic ≠ .matmul) : stageShape s a b = ⟨a.dims, 1⟩ := by
  cases ha : s.arithmetic with
  | matmul => exact absurd ha h
  | _ => simp [stageShape, ha]

theorem SettledSecond.length_eq {r : Registry} {name : Option String} {b : Option Operand}
    (h : SettledSecond r name b) : name.toList.length = b.toList.length := by
  cases name with
  | none => simp [show b = none from h]
  | some name =>
    obtain ⟨o, rfl, -⟩ := h
    rfl

/-- The sources that stand behind the two unpackers. The first one is always shaped like the first
source of the stage: where it is the second source, the first one comes from the accumulator and the
two have the same shape. -/
theorem Resolves.exists_buffers {settings : Settings} {r : Registry} {site : Site} {a : Operand}
    {b : Option Operand} {c : Contents} {formats : FormatPlan}
    (h : Resolves settings r site a b c formats) :
    ∃ x y : Operand, (stageOf settings r site a b c formats).unpackedA = x.id ∧
      (stageOf settings r site a b c formats).unpackedB = y.id ∧
      x ∈ a :: b.toList ∧ y ∈ a :: b.toList ∧ x.dims = a.dims ∧
      (site.spec.loader.fresh.length = 2 → x = a ∧ b = some y) := by
  obtain ⟨-, hcomb⟩ := (descriptionCauses_eq_nil_iff _ _).mp h.described
  have hfit := (shapeFaults_eq_nil_iff _ _ _).mp h.shapes
  have hcount := hcomb.count
  have hlen := h.sourceB.length_eq
  cases hreuse : site.spec.loader.reuse with
  | none =>
    simp only [Loader.fresh, Stage.unpackedA, Stage.unpackedB, Stage.fresh, stageOf, hreuse]
    cases b with
    | none => exact ⟨a, a, rfl, rfl, by simp, by simp, rfl, by simp [hlen]⟩
    | some o => exact ⟨a, o, rfl, rfl, by simp, by simp, rfl, fun _ => ⟨rfl, rfl⟩⟩
  | sourceA =>
    simp only [Loader.fresh, Stage.unpackedA, Stage.unpackedB, Stage.fresh, stageOf, hreuse]
    cases b with
    | none => exact ⟨a, a, rfl, rfl, by simp, by simp, rfl, by simp [hlen]⟩
    | some o =>
      refine ⟨o, o, rfl, rfl, by simp, by simp, ?_, by simp [hlen]⟩
      -- a copy would read nothing from memory, so the unit is the elementwise one
      obtain ⟨hkind, hcopy | ⟨op, hop⟩⟩ := hcomb.reuse (by simp [hreuse])
      · simp [Loader.fresh, hreuse, hlen, freshWanted, hcopy] at hcount
      · exact (hfit.equal op hop (by simp [hkind, LoaderKind.spread]) o rfl).symm
  | sourceB =>
    simp only [Loader.fresh, Stage.unpackedA, Stage.unpackedB, Stage.fresh, stageOf, hreuse]
    exact ⟨a, a, rfl, rfl, by simp, by simp, rfl, by simp⟩

/-- The shapes of a built pipeline are as its stages need them. -/
theorem measured_of_build {r : Registry} {specs : List StageSpec} {settings : Settings}
    {p : Pipeline} (hr : r.Declared) (hp : (Pipeline.build r specs settings).value = .ok p) :
    ∀ v ∈ p.views, v.Measured := by
  obtain ⟨-, stages, final, placed, hall, hplace, rfl⟩ := build_eq_ok_iff.mp hp
  have hfinal := hall.wellFormed hr.wellFormed
  intro v hv
  obtain ⟨s, hs, rfl⟩ := List.mem_map.mp hv
  obtain ⟨r', site, a, b, c, formats, hres, rfl, ha, hb, o, ho, hoc, -⟩ :=
    hall.exists_resolves hr.wellFormed s hs
  obtain ⟨-, hcomb⟩ := (descriptionCauses_eq_nil_iff _ _).mp hres.described
  have hfit := (shapeFaults_eq_nil_iff _ _ _).mp hres.shapes
  obtain ⟨x, y, hx, hy, hxmem, hymem, hxdims, htwo⟩ := hres.exists_buffers
  -- the sources, and the output, are still what they were when the stage was resolved
  have hkept : ∀ w ∈ a :: b.toList, final.operand? w.id = some w := by
    refine List.forall_mem_cons.mpr ⟨ha, fun w hw => hb w ?_⟩
    simpa using hw
  have hsound : ∀ {i : Nat} {w : Operand}, final.operand? i = some w → w.Counted :=
    fun hw => (hfinal.sound _ (List.mem_of_getElem? hw)).counted
  generalize hview : (⟨settings, stages, placed⟩ : Pipeline).view
    (stageOf settings r' site a b c formats) = v
  have hsettings : v.settings = settings := by rw [← hview]; rfl
  have hspec : v.stage.spec = site.spec := by rw [← hview]; rfl
  have hA : v.bufferA.contents = x.contents := by
    rw [← hview, ← contents_operand settings stages hplace (hkept x hxmem), ← hx]
    rfl
  have hB : v.bufferB.contents = y.contents := by
    rw [← hview, ← contents_operand settings stages hplace (hkept y hymem), ← hy]
    rfl
  have hO : v.output.contents = o.contents := by
    rw [← hview, ← contents_operand settings stages hplace ho]
    rfl
  have hdims : v.output.dims = (stageShape site.spec a b).dims := by
    rw [Operand.dims_congr hO, Operand.dims_of_contents hoc, Contents.dims_of? hres.contents]
  refine
    { combination := by rw [hsettings, hspec]; exact hcomb
      countedA := counted_congr hA (hsound (hkept x hxmem))
      countedB := counted_congr hB (hsound (hkept y hymem))
      countedOutput := counted_congr hO (hsound ho)
      wholeA := by rw [Operand.dims_congr hA]; exact hfit.whole x hxmem
      wholeB := by rw [Operand.dims_congr hB]; exact hfit.whole y hymem
      copied := ?_
      paired := ?_
      product := ?_ }
  · intro hne
    rw [hspec] at hne
    rw [Operand.dims_congr hA, hxdims, hdims, stageShape_of_ne_matmul hne]
  · intro op hop hlen hspread
    rw [StageView.loader, hspec] at hlen hspread
    rw [hspec] at hop
    rw [Operand.dims_congr hB, hdims, stageShape_of_ne_matmul (by simp [hop])]
    exact (hfit.equal op hop hspread y (htwo hlen).2).symm
  · intro hmul
    rw [hspec] at hmul
    have hlen : site.spec.loader.fresh.length = 2 := by
      rw [hcomb.count]
      simp [freshWanted, hmul]
    obtain ⟨rfl, rfl⟩ := htwo hlen
    obtain ⟨hcols, hpos⟩ := (hfit.whole x (List.mem_cons_self ..)).tileCols_eq
    have hinner : v.stage.innerTiles = max (x.dims.cols / tileSide) 1 := by
      rw [← hview]
      simp [Pipeline.view, stageOf, stageShape, hmul]
    rw [Operand.dims_congr hA, Operand.dims_congr hB, hdims, hinner, hcols]
    refine ⟨?_, hfit.inner hmul y rfl, Nat.max_eq_left hpos⟩
    simp [stageShape, hmul]

end TileFusion
