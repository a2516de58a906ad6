import TileFusion.Proofs.PlannedFormats
import TileFusion.Proofs.UniformBatches

/-!
# Width of the accumulator

Whether the accumulator of a stage holds 32-bit data is settled from the formats behind the
unpackers and the format of the output. Two things are not looked at: the operand that a stage takes
out of the accumulator while it reads another one from memory, and the second operand of a stage
when it asks for a narrowing that is only exact out of 32 bits.

> `wide_of_operand_iff`: a 32-bit operand makes the accumulator of its stage wide, unless it is the
> reused one of two and nothing else of the stage is wide;
> `wide_of_planned`: so does a planned format of more than 16 bits, but for the packer's input when
> the second operand alone asks for it.
-/

namespace TileFusion

/-! ## Requests -/

theorem needsWideDest_eq_true_iff {r : FormatRequest} :
    needsWideDest r = true ↔ r.accumulate = true ∨
      (r.load.is32Bit = true ∨ ∃ x, r.secondary = some x ∧ x.is32Bit = true) ∨
        r.store.is32Bit = true ∨ isOutlier r.load r.store r.accumulate = true := by
  simp only [needsWideDest, Bool.or_eq_true, Option.any_eq_true, or_assoc]

/-- Arithmetic beyond 16 bits has a wide accumulator. -/
theorem needsWideDest_of_compute {r : FormatRequest} (h : 16 < r.compute.bits) :
    needsWideDest r = true := by
  unfold FormatRequest.compute at h
  rw [needsWideDest_eq_true_iff]
  split at h
  next hwide =>
    simp only [Bool.or_eq_true, Option.any_eq_true] at hwide
    obtain (hload | hsecond) | hstore := hwide
    · exact .inr (.inl (.inl hload))
    · exact .inr (.inl (.inr hsecond))
    · exact .inr (.inr (.inl hstore))
  next =>
    split at h
    next haccumulate => exact .inl haccumulate
    next => split at h <;> simp [DataFormat.bits] at h

/-- Where the accumulator stays narrow, so do all formats of the request. -/
theorem narrow_of_needsWideDest {r : FormatRequest} (h : needsWideDest r = false) :
    r.accumulate = false ∧ r.load.is32Bit = false ∧
      (∀ x, r.secondary = some x → x.is32Bit = false) ∧ r.store.is32Bit = false ∧
      isOutlier r.load r.store r.accumulate = false ∧ r.compute.bits ≤ 16 := by
  have hcompute : r.compute.bits ≤ 16 := by
    by_contra hlt
    rw [needsWideDest_of_compute (by omega)] at h
    cases h
  rw [← Bool.not_eq_true, needsWideDest_eq_true_iff] at h
  simp only [not_or, Bool.not_eq_true, not_exists, not_and] at h
  obtain ⟨haccumulate, ⟨hload, hsecond⟩, hstore, houtlier⟩ := h
  exact ⟨haccumulate, hload, hsecond, hstore, houtlier, hcompute⟩

/-! ## Stages -/

/-- The stage works on a wide accumulator: it says so, all its calls are told so, and it holds half
the tiles of a narrow one. -/
structure StageView.Wide (v : StageView) : Prop where
  flag : v.stage.wideDest = true
  calls : ∀ (t : Thread), ∀ call ∈ callsOf (v.contribution t).body, ∀ wide,
    call.wideDest? = some wide → wide = true
  halved : 2 * v.stage.capacity =
    accumulatorCapacity v.settings.platform false v.settings.destSync

theorem capacity_halved (platform : Platform) (sync : DestSync) :
    2 * accumulatorCapacity platform true sync = accumulatorCapacity platform false sync := by
  cases platform <;> cases sync <;> decide

/-- The stage has a reason for a wide accumulator: the settings, an operand that it names as a
source, or its output. -/
def Pipeline.AsksWide (p : Pipeline) (v : StageView) : Prop :=
  p.settings.accumulate = true ∨
    ∃ name ∈ v.stage.spec.sources ++ [v.stage.spec.output], (formatOf p.outline name).is32Bit = true

/-- The only 32-bit operand of the stage is the one in the accumulator, another one comes from
memory, and nothing else is a reason. -/
structure Pipeline.NarrowsReused (p : Pipeline) (v : StageView) : Prop where
  accumulate : p.settings.accumulate = false
  reused : ∃ name, v.loader.reused = some name ∧ (formatOf p.outline name).is32Bit = true
  reads : v.loader.fresh ≠ []
  fresh : ∀ name ∈ v.loader.fresh, (formatOf p.outline name).is32Bit = false ∧
    isOutlier (formatOf p.outline name) v.stage.spec.outputFormat false = false
  output : v.stage.spec.outputFormat.is32Bit = false

/-- What a stage names it reads from memory or takes from the accumulator. -/
theorem mem_sources_iff {s : StageSpec} {name : String} :
    name ∈ s.sources ↔ name ∈ s.loader.fresh ∨ s.loader.reused = some name := by
  unfold StageSpec.sources Loader.fresh Loader.reused
  cases s.loader.reuse <;> simp [eq_comm, or_comm]

theorem asksWide_of_reused {p : Pipeline} {v : StageView} {name : String}
    (hreused : v.loader.reused = some name) (hwide : (formatOf p.outline name).is32Bit = true) :
    p.AsksWide v :=
  .inr ⟨name, List.mem_append_left _ (mem_sources_iff.mpr (.inr hreused)), hwide⟩

theorem Loader.unpacked_eq {l : Loader} (h : l.fresh ≠ []) : l.unpacked = l.fresh := by
  unfold Loader.unpacked
  split
  next hnil => exact absurd hnil h
  next => rfl

/-- A stage that takes an operand from the accumulator reads at most one from memory. -/
theorem fresh_of_reused {l : Loader} {name : String} (h : l.reused = some name) :
    l.fresh = [] ∧ l.sourceA = name ∨ ∃ other, l.fresh = [other] := by
  unfold Loader.reused at h
  unfold Loader.fresh
  cases hreuse : l.reuse with
  | none => simp [hreuse] at h
  | sourceA =>
    simp only [hreuse, Option.some.injEq] at h
    cases l.sourceB with
    | none => exact .inl ⟨rfl, h⟩
    | some other => exact .inr ⟨other, rfl⟩
  | sourceB => exact .inr ⟨l.sourceA, rfl⟩

/-- A single operand in memory is the first one of the request. -/
theorem load_request {p : Pipeline} {s : Stage} {name : String} (h : s.spec.loader.fresh = [name]) :
    (p.request s).load = formatOf p.outline name := by
  show formatOf p.outline (s.spec.loader.fresh.head?.getD s.spec.loader.sourceA) = _
  rw [h]
  rfl

section Built

variable {r : Registry} {specs : List StageSpec} {settings : Settings} {p : Pipeline}

/-- The flag alone decides. -/
theorem wide_iff (hr : r.Declared) (hp : (Pipeline.build r specs settings).value = .ok p)
    {v : StageView} (hv : v ∈ p.views) : v.Wide ↔ needsWideDest (p.request v.stage) = true := by
  have hflag := (request_of_build hr hp v hv).2.1
  rw [← hflag]
  refine ⟨fun h => h.flag, fun h => ⟨h, ?_, ?_⟩⟩
  · intro t call hcall wide hwide
    rw [← h]
    exact (StageView.suits_contribution (combination_of_build hp v hv) t call hcall).wide wide hwide
  · rw [(batch_of_build hr hp v hv).2.2, h, settings_of_build hp v hv]
    exact capacity_halved ..

/-- A reason that goes unheard is the reused operand. -/
theorem narrowsReused_of_asksWide (hr : r.Declared)
    (hp : (Pipeline.build r specs settings).value = .ok p) {v : StageView} (hv : v ∈ p.views)
    (hasks : p.AsksWide v) (hnarrow : needsWideDest (p.request v.stage) = false) :
    p.NarrowsReused v := by
  obtain ⟨haccumulate, hload, hsecond, hstore, houtlier, -⟩ := narrow_of_needsWideDest hnarrow
  have hunpacked : ∀ name ∈ v.loader.unpacked, (formatOf p.outline name).is32Bit = false := by
    intro name hname
    rw [← Bool.not_eq_true]
    intro hwide
    obtain h | ⟨x, hx, h⟩ := (exists_unpacked_iff p.settings p.outline v.stage.spec
      (·.is32Bit = true)).mp ⟨name, hname, hwide⟩
    · exact Bool.false_ne_true (hload.symm.trans h)
    · exact Bool.false_ne_true ((hsecond x hx).symm.trans h)
  obtain h | ⟨name, hname, hwide⟩ := hasks
  · exact absurd (haccumulate.symm.trans h) Bool.false_ne_true
  rw [List.mem_append, mem_sources_iff, List.mem_singleton] at hname
  obtain (hfresh | hreused) | rfl := hname
  · rw [hunpacked name (Loader.unpacked_eq (List.ne_nil_of_mem hfresh) ▸ hfresh)] at hwide
    cases hwide
  · obtain ⟨hnil, hsource⟩ | ⟨other, hother⟩ := fresh_of_reused hreused
    -- a copy unpacks in the format of what it copies
    · have hmem : name ∈ v.loader.unpacked := by
        rw [Loader.unpacked, show v.loader.fresh = [] from hnil]
        exact List.mem_singleton.mpr hsource.symm
      rw [hunpacked name hmem] at hwide
      cases hwide
    · have hfresh : v.loader.fresh = [other] := hother
      have hne : v.loader.fresh ≠ [] := by simp [hfresh]
      refine ⟨haccumulate, ⟨name, hreused, hwide⟩, hne, ?_, hstore⟩
      rw [Loader.unpacked_eq hne, hfresh] at hunpacked
      rw [hfresh, List.forall_mem_singleton]
      refine ⟨hunpacked other (List.mem_singleton_self other), ?_⟩
      rw [load_request hfresh, haccumulate] at houtlier
      exact houtlier
  · rw [(request_of_build hr hp v hv).2.2] at hwide
    exact absurd (hstore.symm.trans hwide) Bool.false_ne_true

theorem needsWideDest_of_narrowsReused {v : StageView} (h : p.NarrowsReused v) :
    needsWideDest (p.request v.stage) = false := by
  obtain ⟨haccumulate, ⟨name, hreused, -⟩, hne, hfresh, houtput⟩ := h
  rw [← Bool.not_eq_true, needsWideDest_eq_true_iff]
  rintro (h | h | h | h)
  · exact Bool.false_ne_true (haccumulate.symm.trans h)
  · obtain ⟨name, hname, hwide⟩ := (exists_unpacked_iff p.settings p.outline v.stage.spec
      (·.is32Bit = true)).mpr h
    have hunpacked := Loader.unpacked_eq hne
    rw [(hfresh name (hunpacked ▸ hname)).1] at hwide
    cases hwide
  · exact Bool.false_ne_true (houtput.symm.trans h)
  · obtain ⟨hnil, -⟩ | ⟨other, hother⟩ := fresh_of_reused hreused
    · exact hne hnil
    · have houtlier := (hfresh other (by simp [hother])).2
      rw [load_request hother, show (p.request v.stage).accumulate = false from haccumulate] at h
      exact Bool.false_ne_true (houtlier.symm.trans h)

/-- The first stage finds nothing in the accumulator. -/
theorem reuse_of_index_zero (hp : (Pipeline.build r specs settings).value = .ok p) {v : StageView}
    (hv : v ∈ p.views) (hindex : v.index = 0) : v.loader.reuse = .none := by
  obtain ⟨front, back, hsplit, hlen⟩ := (ordered_of_build hp).exists_split hv
  obtain rfl : front = [] := List.eq_nil_of_length_eq_zero (hlen.trans hindex)
  obtain ⟨-, stages, final, placed, hall, -, rfl⟩ := build_eq_ok_iff.mp hp
  cases specs with
  | nil =>
    cases hall
    simp [Pipeline.views] at hv
  | cons spec specs =>
    cases hall with
    | cons hsite hrest =>
      obtain ⟨rfl, -⟩ := List.cons.inj hsplit
      exact ((descriptionCauses_eq_nil_iff _ _).mp hsite.described).1

/-- The stage in front has written its output out of a wide accumulator. -/
theorem exists_wide_previous (hr : r.Declared)
    (hp : (Pipeline.build r specs settings).value = .ok p) {v : StageView} (hv : v ∈ p.views)
    {name : String} (hreused : v.loader.reused = some name)
    (hwide : (formatOf p.outline name).is32Bit = true) :
    ∃ w ∈ p.views, w.index + 1 = v.index ∧ v.loader.reused = some w.stage.spec.output ∧ w.Wide := by
  have hpos : 0 < v.index := by
    by_contra hzero
    have hreuse := reuse_of_index_zero hp hv (by omega)
    simp [Loader.reused, hreuse] at hreused
  obtain ⟨front, w, back, hsplit, hfollows⟩ :=
    (ordered_of_build hp).exists_previous (isChain_views hr hp) hv hpos
  have hw : w ∈ p.views := by simp [hsplit]
  refine ⟨w, hw, hfollows.index.symm, hfollows.reused, (wide_iff hr hp hw).mpr ?_⟩
  obtain rfl : name = w.stage.spec.output :=
    Option.some.inj (hreused.symm.trans hfollows.reused)
  rw [(request_of_build hr hp w hw).2.2] at hwide
  exact needsWideDest_eq_true_iff.mpr (.inr (.inr (.inl hwide)))

/-- **A 32-bit operand makes the accumulator of its stage wide, unless it is the reused one of two
and nothing else of the stage is wide.** Then the stage reads in 16 bits what the stage in front has
left in 32. -/
theorem wide_of_operand_iff (hr : r.Declared)
    (hp : (Pipeline.build r specs settings).value = .ok p) :
    (∀ t : Thread, (p.lower.thread t).body = p.views.flatMap fun v => (v.contribution t).body) ∧
      ∀ v ∈ p.views, ((p.AsksWide v → v.Wide) ↔ ¬p.NarrowsReused v) ∧
        (p.NarrowsReused v → v.stage.wideDest = false ∧
          v.stage.capacity = accumulatorCapacity v.settings.platform false v.settings.destSync ∧
          ∃ w ∈ p.views, w.index + 1 = v.index ∧
            v.loader.reused = some w.stage.spec.output ∧ w.Wide) := by
  refine ⟨p.body_thread, fun v hv => ⟨?_, ?_⟩⟩
  · rw [wide_iff hr hp hv]
    constructor
    · intro himp hnarrows
      obtain ⟨name, hreused, hwide⟩ := hnarrows.reused
      rw [needsWideDest_of_narrowsReused hnarrows] at himp
      exact Bool.false_ne_true (himp (asksWide_of_reused hreused hwide))
    · intro hnot hasks
      by_contra hnarrow
      exact hnot (narrowsReused_of_asksWide hr hp hv hasks (Bool.not_eq_true _ ▸ hnarrow))
  · intro hnarrows
    have hflag : v.stage.wideDest = false :=
      (request_of_build hr hp v hv).2.1.trans (needsWideDest_of_narrowsReused hnarrows)
    obtain ⟨name, hreused, hwide⟩ := hnarrows.reused
    refine ⟨hflag, ?_, exists_wide_previous hr hp hv hreused hwide⟩
    rw [(batch_of_build hr hp v hv).2.2, hflag, settings_of_build hp v hv]

end Built

/-! ## A sum in 32 bits -/

/-- A sum that is written in 32 bits, and a stage that takes it over. -/
def wideSumSpecs (loader : Loader) (arithmetic : Arithmetic) : List StageSpec :=
  [{ loader := ⟨.direct, "a", some "b", .none, false, false⟩
     arithmetic := .eltwise .add
     nonlinear := []
     output := "sum"
     outputFormat := .float32
     fidelity := .lofi
     unpackToDest := false },
   { loader := loader
     arithmetic := arithmetic
     nonlinear := []
     output := "y"
     outputFormat := .float16b
     fidelity := .lofi
     unpackToDest := false }]

/-- A copy of the sum keeps the accumulator wide. -/
theorem wide_of_operand_iff_copy :
    ∃ p, (Pipeline.build (columnRegistry ⟨⟨64, 64⟩, .float16b, 4, 8192⟩)
        (wideSumSpecs ⟨.direct, "sum", none, .sourceA, false, false⟩ .datacopy)
        columnSettings).value = .ok p ∧
      ∃ v ∈ p.views, v.loader.reused = some "sum" ∧ p.AsksWide v ∧ v.Wide := by
  have hr : (columnRegistry ⟨⟨64, 64⟩, .float16b, 4, 8192⟩).Declared :=
    .input "b" ⟨64, 64⟩ .float16b none declared_columnInput rfl
  obtain ⟨p, hp, hviews⟩ := exists_build_of_any (columnRegistry ⟨⟨64, 64⟩, .float16b, 4, 8192⟩)
    (wideSumSpecs ⟨.direct, "sum", none, .sourceA, false, false⟩ .datacopy) columnSettings
    (fun p => p.views.any fun v => v.loader.reused == some "sum" && v.loader.fresh == [] &&
      (formatOf p.outline "sum").is32Bit) (by decide +kernel)
  obtain ⟨v, hv, hcheck⟩ := List.any_eq_true.mp hviews
  simp only [Bool.and_eq_true, beq_iff_eq] at hcheck
  obtain ⟨⟨hreused, hfresh⟩, hwide⟩ := hcheck
  have hasks : p.AsksWide v := asksWide_of_reused hreused hwide
  refine ⟨p, hp, v, hv, hreused, hasks, ?_⟩
  exact ((wide_of_operand_iff hr hp).2 v hv).1.mpr (fun h => h.reads hfresh) hasks

/-- A product with the sum has a narrow one. -/
theorem narrow_product_of_wide_sum :
    ∃ p, (columnRegistry ⟨⟨64, 64⟩, .float16b, 4, 8192⟩).Declared ∧
      (Pipeline.build (columnRegistry ⟨⟨64, 64⟩, .float16b, 4, 8192⟩)
        (wideSumSpecs ⟨.direct, "a", some "sum", .sourceB, false, false⟩ (.eltwise .mul))
        columnSettings).value = .ok p ∧
      ∃ v ∈ p.views, p.AsksWide v ∧ v.stage.wideDest = false ∧ ¬v.Wide := by
  have hr : (columnRegistry ⟨⟨64, 64⟩, .float16b, 4, 8192⟩).Declared :=
    .input "b" ⟨64, 64⟩ .float16b none declared_columnInput rfl
  obtain ⟨p, hp, hviews⟩ := exists_build_of_any (columnRegistry ⟨⟨64, 64⟩, .float16b, 4, 8192⟩)
    (wideSumSpecs ⟨.direct, "a", some "sum", .sourceB, false, false⟩ (.eltwise .mul)) columnSettings
    (fun p => p.views.any fun v => v.loader.reused == some "sum" &&
      (formatOf p.outline "sum").is32Bit && !v.stage.wideDest) (by decide +kernel)
  obtain ⟨v, hv, hcheck⟩ := List.any_eq_true.mp hviews
  simp only [Bool.and_eq_true, beq_iff_eq, Bool.not_eq_true'] at hcheck
  obtain ⟨⟨hreused, hwide⟩, hflag⟩ := hcheck
  refine ⟨p, hr, hp, v, hv, asksWide_of_reused hreused hwide, hflag, ?_⟩
  intro h
  exact Bool.false_ne_true (hflag.symm.trans h.flag)

/-! ## The second operand -/

/-- Without accumulation, and between formats that are not 32-bit, the second of two operands alone
has a wide exponent, and is to be stored as `float16` on the platform whose packer does that. -/
structure FormatRequest.SecondOutlier (r : FormatRequest) : Prop where
  platform : r.platform = .wormhole
  accumulate : r.accumulate = false
  store : r.store = .float16
  load : r.load.is32Bit = false ∧ r.load.hasWideExponent = false
  secondary : ∃ x, r.secondary = some x ∧ x.is32Bit = false ∧ x.hasWideExponent = true

/-- A packer that reads more than 16 bits out of a narrow accumulator does so for the second
operand. -/
theorem secondOutlier_of_storeSource {r : FormatRequest} (hnarrow : needsWideDest r = false)
    (h : 16 < r.storeSource.bits) : r.SecondOutlier := by
  obtain ⟨haccumulate, hload, hsecond, hstore, houtlier, hcompute⟩ :=
    narrow_of_needsWideDest hnarrow
  have hne : r.compute ≠ .float32 := by
    intro heq
    simp [heq, DataFormat.bits] at hcompute
  unfold FormatRequest.storeSource FormatRequest.wideStoreSource at h
  simp only [haccumulate, Bool.and_false, Bool.false_and, Bool.false_eq_true, if_false,
    beq_eq_false_iff_ne.mpr hne, Bool.not_false, Bool.and_true] at h
  split at h
  next => omega
  next =>
    split at h
    next => simp [DataFormat.bits] at h
    next =>
      -- only the outlier rule is left, and the first operand does not ask for it
      split at h
      next hdual =>
        rw [haccumulate] at houtlier
        simp only [isDualOutlier, houtlier, Bool.false_or, Option.any_eq_true] at hdual
        obtain ⟨x, hx, hout⟩ := hdual
        simp only [isOutlier, Bool.not_false, Bool.and_true, Bool.and_eq_true, beq_iff_eq] at hout
        have hload' : r.load.hasWideExponent = false := by
          simpa [isOutlier, hout.2] using houtlier
        split at h
        next hplatform =>
          exact ⟨beq_iff_eq.mp hplatform, haccumulate, hout.2, ⟨hload, hload'⟩, x, hx, hsecond x hx,
            hout.1⟩
        next =>
          rw [hout.2] at h
          simp [DataFormat.bits] at h
      next => omega

/-- Then the packer reads 32 bits where the accumulator holds 16. -/
theorem storeSource_of_secondOutlier {r : FormatRequest} (h : r.SecondOutlier) :
    r.storeSource = .float32 ∧ r.compute = .float16b ∧ needsWideDest r = false := by
  obtain ⟨hplatform, haccumulate, hstore, ⟨hload, hexponent⟩, x, hx, hnarrow, hwide⟩ := h
  have hstore' : r.store.is32Bit = false := by rw [hstore]; rfl
  have hcompute : r.compute = .float16b := by
    have htarget : (loadTarget x r.store r.accumulate r.unpackToDest).hasWideExponent = true := by
      revert hnarrow hwide
      cases x <;> simp [loadTarget, DataFormat.isMicroScaling, DataFormat.is32Bit,
        DataFormat.hasWideExponent, DataFormat.exponent]
    simp [FormatRequest.compute, FormatRequest.secondaryFormats, hload, hx, hnarrow, hstore',
      haccumulate, haccumulate ▸ htarget]
  refine ⟨?_, hcompute, ?_⟩
  · simp [FormatRequest.storeSource, FormatRequest.wideStoreSource, hplatform, haccumulate, hcompute,
      isDualOutlier, isOutlier, hx, hwide, hstore, Platform.hasNarrowAccumulator]
  · simp [needsWideDest, haccumulate, hload, hx, hnarrow, hstore', isOutlier, hexponent]

section Built

variable {r : Registry} {specs : List StageSpec} {settings : Settings} {p : Pipeline}

/-- **A planned format of more than 16 bits makes the accumulator wide, but for the packer's input
when the second operand alone asks for it.** That rule looks at both operands, and the width of the
accumulator only at the first. -/
theorem wide_of_planned (hr : r.Declared) (hp : (Pipeline.build r specs settings).value = .ok p) :
    (∀ t : Thread, (p.lower.thread t).body = p.views.flatMap fun v => (v.contribution t).body) ∧
      ∀ v ∈ p.views, (16 < v.stage.formats.compute.bits → v.Wide) ∧
        (16 < v.stage.formats.storeSource.bits → ¬(p.request v.stage).SecondOutlier → v.Wide) ∧
        ((p.request v.stage).SecondOutlier → v.stage.formats.storeSource = .float32 ∧
          v.stage.formats.compute = .float16b ∧ v.stage.wideDest = false) := by
  refine ⟨p.body_thread, fun v hv => ?_⟩
  obtain ⟨hplan, hflag, -⟩ := request_of_build hr hp v hv
  rw [wide_iff hr hp hv, FormatRequest.eq_of_plan hplan, hflag]
  refine ⟨needsWideDest_of_compute, ?_, storeSource_of_secondOutlier⟩
  intro hbits hnot
  by_contra hnarrow
  exact hnot (secondOutlier_of_storeSource (Bool.not_eq_true _ ▸ hnarrow) hbits)

end Built

/-- Adds two operands and stores the sum with a narrow exponent. -/
def rebiasedSumSpecs (first second : String) : List StageSpec :=
  [{ loader := ⟨.direct, first, some second, .none, false, false⟩
     arithmetic := .eltwise .add
     nonlinear := []
     output := "sum"
     outputFormat := .float16
     fidelity := .lofi
     unpackToDest := false }]

/-- With the wide exponent in front the packer reads 32 bits out of a wide accumulator. -/
theorem wide_of_planned_first :
    ∃ p, (Pipeline.build (columnRegistry ⟨⟨64, 64⟩, .float16, 4, 8192⟩)
        (rebiasedSumSpecs "a" "b") columnSettings).value = .ok p ∧
      ∃ v ∈ p.views, v.stage.formats.storeSource = .float32 ∧ v.Wide := by
  have hr : (columnRegistry ⟨⟨64, 64⟩, .float16, 4, 8192⟩).Declared :=
    .input "b" ⟨64, 64⟩ .float16 none declared_columnInput rfl
  obtain ⟨p, hp, hviews⟩ := exists_build_of_any (columnRegistry ⟨⟨64, 64⟩, .float16, 4, 8192⟩)
    (rebiasedSumSpecs "a" "b") columnSettings
    (fun p => p.views.any fun v => v.stage.formats.storeSource == .float32 &&
      (p.request v.stage).load.hasWideExponent) (by decide +kernel)
  obtain ⟨v, hv, hcheck⟩ := List.any_eq_true.mp hviews
  simp only [Bool.and_eq_true, beq_iff_eq] at hcheck
  obtain ⟨hstore, hload⟩ := hcheck
  refine ⟨p, hp, v, hv, hstore, ?_⟩
  apply ((wide_of_planned hr hp).2 v hv).2.1
  · rw [hstore]
    decide
  · intro h
    exact Bool.false_ne_true (h.load.2.symm.trans hload)

/-- With the wide exponent behind the accumulator is narrow, and the packer still reads 32 bits. -/
theorem narrow_of_second_outlier :
    ∃ p, (columnRegistry ⟨⟨64, 64⟩, .float16, 4, 8192⟩).Declared ∧
      (Pipeline.build (columnRegistry ⟨⟨64, 64⟩, .float16, 4, 8192⟩)
        (rebiasedSumSpecs "b" "a") columnSettings).value = .ok p ∧
      ∃ v ∈ p.views, 16 < v.stage.formats.storeSource.bits ∧ v.stage.wideDest = false ∧
        ¬v.Wide := by
  have hr : (columnRegistry ⟨⟨64, 64⟩, .float16, 4, 8192⟩).Declared :=
    .input "b" ⟨64, 64⟩ .float16 none declared_columnInput rfl
  obtain ⟨p, hp, hviews⟩ := exists_build_of_any (columnRegistry ⟨⟨64, 64⟩, .float16, 4, 8192⟩)
    (rebiasedSumSpecs "b" "a") columnSettings
    (fun p => p.views.any fun v => decide (16 < v.stage.formats.storeSource.bits) &&
      !v.stage.wideDest) (by decide +kernel)
  obtain ⟨v, hv, hcheck⟩ := List.any_eq_true.mp hviews
  simp only [Bool.and_eq_true, decide_eq_true_eq, Bool.not_eq_true'] at hcheck
  obtain ⟨hbits, hflag⟩ := hcheck
  refine ⟨p, hr, hp, v, hv, hbits, hflag, ?_⟩
  intro h
  exact Bool.false_ne_true (hflag.symm.trans h.flag)

end TileFusion
