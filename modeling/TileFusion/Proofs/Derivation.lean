import TileFusion.Build
import TileFusion.Proofs.Registries

/-!
# What a successful build has done

A build passes a registry, a list of errors and a list of failed stages from stage to stage, and a
stage can leave it in five different ways. When nothing was found wrong, only one of them was taken,
and this file says which:

> `Resolves`: everything that a stage needs of the registry in front of it;
> `ResolvesAll`: the stages in a row, each on the registry that the one in front has settled;
> `build_eq_ok_iff`: a build succeeds exactly when the pipeline as a whole has no errors, its
> stages resolve in a row, and the operands can be placed.

Later files never open `resolveStage` or `BuildState.step` again: whatever is to be known of a built
pipeline follows from a `ResolvesAll` by induction.
-/

namespace TileFusion

/-! ## Sources -/

/-- The operand that a stage reads under a name. -/
def Settled (r : Registry) (name : String) (o : Operand) : Prop :=
  r.find? name = some o ∧ o.isResolved = true

/-- The second source of a stage, which may have none. -/
def SettledSecond (r : Registry) : Option String → Option Operand → Prop
  | none, b => b = none
  | some name, b => ∃ o, b = some o ∧ Settled r name o

theorem findSource_eq_ok_iff {r : Registry} {failed : List Nat} {name : String} {o : Operand} :
    findSource r failed name = .ok o ↔ Settled r name o := by
  unfold findSource Settled
  cases r.find? name with
  | none => simp
  | some x =>
    by_cases hx : x.isResolved = true
    · simp only [hx, if_true, Except.ok.injEq, Option.some.injEq]
      constructor
      · rintro rfl
        exact ⟨rfl, hx⟩
      · exact fun h => h.1
    · have hne : x = o → ¬o.isResolved = true := by
        rintro rfl
        exact hx
      simp only [if_neg hx]
      constructor
      · intro h
        split at h <;> simp at h
      · rintro ⟨h1, h2⟩
        exact absurd h2 (hne (Option.some.inj h1))

/-- As long as no stage has failed, a source that is not found is reported. -/
theorem ne_nil_of_findSource {r : Registry} {name : String} {cs : List Cause}
    (h : findSource r [] name = .error cs) : cs ≠ [] := by
  unfold findSource at h
  split at h
  · obtain rfl := Except.error.inj h
    simp
  · split at h
    · simp at h
    · next o _ _ =>
      have hany : (o.producer.any fun p => ([] : List Nat).contains p) = false := by
        cases o.producer <;> simp
      rw [hany] at h
      obtain rfl := Except.error.inj h
      simp

theorem findSecond_eq_ok_iff {r : Registry} {failed : List Nat} {name : Option String}
    {b : Option Operand} : findSecond r failed name = .ok b ↔ SettledSecond r name b := by
  cases name with
  | none => simp [findSecond, SettledSecond, eq_comm]
  | some name =>
    simp only [findSecond, SettledSecond]
    constructor
    · intro h
      cases hs : findSource r failed name with
      | error cs => rw [hs] at h; simp [Except.map] at h
      | ok o =>
        rw [hs] at h
        obtain rfl := Except.ok.inj h
        exact ⟨o, rfl, findSource_eq_ok_iff.mp hs⟩
    · rintro ⟨o, rfl, ho⟩
      rw [findSource_eq_ok_iff.mpr ho]
      rfl

theorem ne_nil_of_findSecond {r : Registry} {name : Option String} {cs : List Cause}
    (h : findSecond r [] name = .error cs) : cs ≠ [] := by
  cases name with
  | none => simp [findSecond] at h
  | some name =>
    simp only [findSecond] at h
    cases hs : findSource r [] name with
    | ok o => rw [hs] at h; simp [Except.map] at h
    | error cs' =>
      rw [hs] at h
      obtain rfl := Except.error.inj h
      exact ne_nil_of_findSource hs

/-! ## The output -/

/-- The name of a stage's output is free, or was declared for this stage and not written yet. -/
def Vacant (r : Registry) (site : Site) : Prop :=
  ∀ o, r.find? site.spec.output = some o →
    o.role ≠ .input ∧ o.isResolved = false ∧ ∀ p, o.producer = some p → p = site.index

/-- A vacant output is claimed. -/
theorem exists_claimOutput_of_vacant {r : Registry} {site : Site} (h : Vacant r site) :
    ∃ declared output, claimOutput r site = (declared, .ok output) := by
  cases hf : r.find? site.spec.output with
  | none =>
    simp only [claimOutput, hf]
    exact ⟨_, _, rfl⟩
  | some o =>
    obtain ⟨hrole, hres, hprod⟩ := h o hf
    have hcond : (o.role == .input || o.isResolved) = false := by
      rw [hres, Bool.or_false, beq_eq_false_iff_ne]
      exact hrole
    simp only [claimOutput, hf, hcond, Bool.false_eq_true, if_false]
    split
    · next p hp =>
      rw [hprod p hp, beq_self_eq_true, if_pos rfl]
      exact ⟨_, _, rfl⟩
    · exact ⟨_, _, rfl⟩

/-- What a claim gives: a fresh operand, or the one of the name in a new role. -/
theorem claimOutput_eq_ok_cases {r declared : Registry} {site : Site} {output : Operand}
    (h : claimOutput r site = (declared, .ok output)) :
    (r.find? site.spec.output = none ∧
      output = r.fresh site.spec.output site.outputRole (some site.index) none ∧
      declared = r.push output) ∨
    ∃ o, r.find? site.spec.output = some o ∧ output = { o with role := site.outputRole } ∧
      declared = r.modify o.id fun _ => output := by
  unfold claimOutput at h
  cases hf : r.find? site.spec.output with
  | none =>
    simp only [hf, Prod.mk.injEq, Except.ok.injEq] at h
    obtain ⟨rfl, rfl⟩ := h
    exact .inl ⟨rfl, rfl, rfl⟩
  | some o =>
    simp only [hf] at h
    split at h
    · simp at h
    · -- a producer other than this stage is a refusal, too
      split at h
      · split at h
        · simp only [Prod.mk.injEq, Except.ok.injEq] at h
          obtain ⟨rfl, rfl⟩ := h
          exact .inr ⟨o, rfl, rfl, rfl⟩
        · simp at h
      · simp only [Prod.mk.injEq, Except.ok.injEq] at h
        obtain ⟨rfl, rfl⟩ := h
        exact .inr ⟨o, rfl, rfl, rfl⟩

/-- A claimed output is placed where the output of the stage is to be placed. -/
theorem location_of_claimOutput {r declared : Registry} {site : Site} {output : Operand}
    (h : claimOutput r site = (declared, .ok output)) :
    output.location = r.outputLocation site := by
  obtain ⟨hf, rfl, -⟩ | ⟨o, hf, rfl, -⟩ := claimOutput_eq_ok_cases h
  · simp only [Registry.outputLocation, hf]
    rfl
  · simp only [Registry.outputLocation, hf]
    rfl

/-- Settling a claimed output is one change of the registry in front of the claim. -/
theorem settle_of_claimOutput {r declared : Registry} {site : Site} {output : Operand}
    (h : claimOutput r site = (declared, .ok output)) (c : Contents) :
    { output with contents := some c } = r.settledOutput site c ∧
      (declared.modify output.id fun _ => r.settledOutput site c) = r.settle site c := by
  obtain ⟨hf, rfl, rfl⟩ | ⟨o, hf, rfl, rfl⟩ := claimOutput_eq_ok_cases h
  · simp only [Registry.settledOutput, Registry.settle, hf, true_and]
    exact Registry.modify_push rfl _
  · simp only [Registry.settledOutput, Registry.settle, hf, Registry.modify, true_and]
    congr 1
    exact List.modify_modify_eq ..

theorem vacant_of_claimOutput {r declared : Registry} {site : Site} {output : Operand}
    (h : claimOutput r site = (declared, .ok output)) : Vacant r site := by
  intro o ho
  unfold claimOutput at h
  simp only [ho] at h
  by_cases hcond : (o.role == .input || o.isResolved) = true
  · rw [if_pos hcond] at h
    simp at h
  · rw [if_neg hcond] at h
    rw [Bool.or_eq_true, not_or, beq_iff_eq, Bool.not_eq_true] at hcond
    refine ⟨hcond.1, hcond.2, ?_⟩
    intro p hp
    simp only [hp] at h
    by_contra hne
    rw [if_neg (by simpa using hne)] at h
    simp at h

/-! ## One stage -/

/-- The stage that a successful resolution records. -/
def stageOf (settings : Settings) (r : Registry) (site : Site) (a : Operand) (b : Option Operand)
    (c : Contents) (formats : FormatPlan) : Stage :=
  let wide := needsWideDest (formatRequest settings site.spec a b)
  { index := site.index
    spec := site.spec
    sourceA := a.id
    sourceB := b.map (·.id)
    output := (r.settledOutput site c).id
    formats := formats
    batchSize := min settings.batchSize c.tiles
    capacity := accumulatorCapacity settings.platform wide settings.destSync
    wideDest := wide
    innerTiles := (stageShape site.spec a b).innerTiles }

/-- The stage `site` resolves on the registry `r`: it reads `a` and `b`, and its output will hold
the contents `c`. -/
structure Resolves (settings : Settings) (r : Registry) (site : Site) (a : Operand)
    (b : Option Operand) (c : Contents) (formats : FormatPlan) : Prop where
  /-- Nothing is wrong on the face of the description. -/
  described : descriptionCauses settings.platform site = []
  /-- The first source is settled. -/
  sourceA : Settled r site.spec.loader.sourceA a
  /-- So is the second one, if it is named. -/
  sourceB : SettledSecond r site.spec.loader.sourceB b
  /-- The shapes of the sources suit the stage. -/
  shapes : shapeFaults site.spec a b = []
  /-- Nobody else has the output. -/
  vacant : Vacant r site
  /-- The formats can be realised. -/
  plan : (formatRequest settings site.spec a b).plan = .ok formats
  /-- A batch fits in the accumulator. -/
  capacity : settings.batchSize ≤ accumulatorCapacity settings.platform
    (needsWideDest (formatRequest settings site.spec a b)) settings.destSync
  /-- The output can be counted in words. -/
  contents : Contents.of? (stageShape site.spec a b).dims site.spec.outputFormat = some c
  /-- The output fits where it is pinned. -/
  fits : Operand.fitsPin (r.outputLocation site) c = true

theorem tileCount?_of_contents {d : Dims} {f : DataFormat} {c : Contents}
    (h : Contents.of? d f = some c) : d.tileCount? = some c.tiles := by
  obtain ⟨ht, -, rfl⟩ := Contents.of?_eq_some_iff.mp h
  rw [Dims.tileCount?, word?, if_pos ht]

theorem resolveWith_of_resolves {settings : Settings} {r : Registry} {site : Site} {a : Operand}
    {b : Option Operand} {c : Contents} {formats : FormatPlan}
    (h : Resolves settings r site a b c formats) :
    (resolveWith settings r site [] a b).value =
      ⟨r.settle site c, [], some (stageOf settings r site a b c formats)⟩ := by
  obtain ⟨declared, output, hclaim⟩ := exists_claimOutput_of_vacant h.vacant
  have hloc := location_of_claimOutput hclaim
  obtain ⟨hout, hmod⟩ := settle_of_claimOutput hclaim c
  have htiles := tileCount?_of_contents h.contents
  have hres : output.resolve? (stageShape site.spec a b).dims site.spec.outputFormat =
      some (r.settledOutput site c) := by
    rw [Operand.resolve?_eq_some_iff]
    exact ⟨c, h.contents, by rw [hloc]; exact h.fits, hout.symm⟩
  have hid : output.id = (r.settledOutput site c).id := by rw [← hout]
  unfold resolveWith
  simp only [hclaim, h.plan, h.shapes, htiles, List.map_nil, List.append_nil,
    Option.isSome_some, if_true, if_pos h.capacity, List.isEmpty_nil, Logged.value_bind,
    Registry.resolve, hres, Logged.value_pure, hmod, Option.getD_some]
  split
  · simp only [Logged.value_bind, Logged.value_pure, stageOf, hid]
  · simp only [Logged.value_pure, stageOf, hid]

/-- A stage that resolves leaves its registry settled, without a complaint. -/
theorem resolveStage_of_resolves {settings : Settings} {r : Registry} {failed : List Nat}
    {site : Site} {a : Operand} {b : Option Operand} {c : Contents} {formats : FormatPlan}
    (h : Resolves settings r site a b c formats) :
    (resolveStage settings r failed site).value =
      ⟨r.settle site c, [], some (stageOf settings r site a b c formats)⟩ := by
  unfold resolveStage
  simp only [findSource_eq_ok_iff.mpr h.sourceA, findSecond_eq_ok_iff.mpr h.sourceB, h.described]
  exact resolveWith_of_resolves h

theorem resolves_of_resolveWith {settings : Settings} {r : Registry} {site : Site}
    {early : List Cause} {a : Operand} {b : Option Operand}
    (h : (resolveWith settings r site early a b).value.causes = []) :
    early = [] ∧ shapeFaults site.spec a b = [] ∧ Vacant r site ∧
      ∃ formats, (formatRequest settings site.spec a b).plan = .ok formats ∧
        settings.batchSize ≤ accumulatorCapacity settings.platform
          (needsWideDest (formatRequest settings site.spec a b)) settings.destSync ∧
        ∃ c, Contents.of? (stageShape site.spec a b).dims site.spec.outputFormat = some c ∧
          Operand.fitsPin (r.outputLocation site) c = true := by
  unfold resolveWith at h
  cases hclaim : claimOutput r site with
  | mk declared result =>
    cases result with
    | error cause =>
      simp [hclaim, causesOf] at h
    | ok output =>
      cases hplan : (formatRequest settings site.spec a b).plan with
      | error error =>
        simp [hclaim, hplan, causesOf, Except.mapError] at h
      | ok formats =>
        have hvac := vacant_of_claimOutput hclaim
        simp only [hclaim, hplan] at h
        -- of the complaints that are gathered here only matters that there are none
        generalize hcauses : early ++ (shapeFaults site.spec a b).map Cause.shape ++ _ ++
          (if settings.batchSize ≤ accumulatorCapacity settings.platform
            (needsWideDest (formatRequest settings site.spec a b)) settings.destSync then []
            else _) = causes at h
        by_cases hempty : causes.isEmpty = true
        · rw [if_pos hempty] at h
          rw [List.isEmpty_iff.mp hempty] at hcauses
          simp only [List.append_eq_nil_iff, List.map_eq_nil_iff] at hcauses
          obtain ⟨⟨⟨hearly, hshape⟩, -⟩, hcap⟩ := hcauses
          have hcap' : settings.batchSize ≤ accumulatorCapacity settings.platform
              (needsWideDest (formatRequest settings site.spec a b)) settings.destSync := by
            by_contra hlt
            rw [if_neg hlt] at hcap
            simp at hcap
          refine ⟨hearly, hshape, hvac, formats, rfl, hcap', ?_⟩
          cases hres : output.resolve? (stageShape site.spec a b).dims site.spec.outputFormat with
          | none => simp [Registry.resolve, hres] at h
          | some o' =>
            obtain ⟨c, hc, hp, -⟩ := Operand.resolve?_eq_some_iff.mp hres
            -- the claimed operand stands where the output is to stand
            exact ⟨c, hc, location_of_claimOutput hclaim ▸ hp⟩
        · rw [if_neg hempty] at h
          exact absurd (List.isEmpty_iff.mpr h) hempty

/-- As long as no stage has failed, a stage without complaints resolves. -/
theorem resolves_of_causes_nil {settings : Settings} {r : Registry} {site : Site}
    (h : (resolveStage settings r [] site).value.causes = []) :
    ∃ a b c formats, Resolves settings r site a b c formats := by
  unfold resolveStage at h
  cases ha : findSource r [] site.spec.loader.sourceA with
  | error cs =>
    simp only [ha, Logged.value_pure, List.append_eq_nil_iff, searchCauses] at h
    exact absurd h.1.1.2 (ne_nil_of_findSource ha)
  | ok a =>
    cases hb : findSecond r [] site.spec.loader.sourceB with
    | error cs =>
      simp only [ha, hb, Logged.value_pure, List.append_eq_nil_iff, searchCauses] at h
      exact absurd h.1.2 (ne_nil_of_findSecond hb)
    | ok b =>
      simp only [ha, hb] at h
      obtain ⟨hearly, hshape, hvac, formats, hplan, hcap, c, hc, hfit⟩ := resolves_of_resolveWith h
      exact ⟨a, b, c, formats, hearly, findSource_eq_ok_iff.mp ha, findSecond_eq_ok_iff.mp hb,
        hshape, hvac, hplan, hcap, hc, hfit⟩

theorem Resolves.wellFormed {settings : Settings} {r : Registry} {site : Site} {a : Operand}
    {b : Option Operand} {c : Contents} {formats : FormatPlan}
    (h : Resolves settings r site a b c formats) (hr : r.WellFormed) :
    (r.settle site c).WellFormed :=
  Registry.wellFormed_settle hr h.contents h.fits

/-! ## What a stage leaves alone -/

/-- `r'` has every operand of `r` under its name, at the same place and location, and what is
settled is final. Operands that `r'` has beyond those of `r` are free to be placed. -/
structure Registry.Extends (r r' : Registry) : Prop where
  kept : ∀ name o, r.find? name = some o →
    ∃ o', r'.find? name = some o' ∧ o'.id = o.id ∧ o'.location = o.location ∧
      o'.producer = o.producer ∧ (o.isResolved = true → o' = o)
  floating : ∀ name o', r.find? name = none → r'.find? name = some o' → o'.location = .floating

theorem Registry.Extends.refl (r : Registry) : r.Extends r :=
  ⟨fun _ o h => ⟨o, h, rfl, rfl, rfl, fun _ => rfl⟩, fun _ _ h h' => by rw [h] at h'; simp at h'⟩

theorem Registry.Extends.trans {r₁ r₂ r₃ : Registry} (h₁ : r₁.Extends r₂) (h₂ : r₂.Extends r₃) :
    r₁.Extends r₃ := by
  constructor
  · intro name o ho
    obtain ⟨o₂, ho₂, hid₂, hloc₂, hprod₂, hfin₂⟩ := h₁.kept name o ho
    obtain ⟨o₃, ho₃, hid₃, hloc₃, hprod₃, hfin₃⟩ := h₂.kept name o₂ ho₂
    refine ⟨o₃, ho₃, hid₃.trans hid₂, hloc₃.trans hloc₂, hprod₃.trans hprod₂, ?_⟩
    intro hres
    have he := hfin₂ hres
    rw [hfin₃ (by rw [he]; exact hres), he]
  · intro name o₃ hnone ho₃
    cases hf : r₂.find? name with
    | none => exact h₂.floating name o₃ hf ho₃
    | some o₂ =>
      obtain ⟨o', ho', -, hloc, -⟩ := h₂.kept name o₂ hf
      rw [ho₃] at ho'
      rw [Option.some.inj ho', hloc]
      exact h₁.floating name o₂ hnone hf

theorem Registry.extends_settle {r : Registry} {site : Site} (hr : r.WellFormed)
    (hvac : Vacant r site) (c : Contents) : r.Extends (r.settle site c) := by
  constructor
  · intro name o ho
    rw [Registry.find?_settle hr]
    by_cases hn : name = site.spec.output
    · rw [if_pos hn]
      rw [hn] at ho
      -- the output was pending, so nothing that was settled has changed
      have hpend := (hvac o ho).2.1
      refine ⟨_, rfl, ?_, ?_, ?_, ?_⟩
      · simp only [Registry.settledOutput, ho]
      · simp only [Registry.settledOutput, ho]
      · simp only [Registry.settledOutput, ho]
      · rw [hpend]
        simp
    · rw [if_neg hn]
      exact ⟨o, ho, rfl, rfl, rfl, fun _ => rfl⟩
  · intro name o' hnone ho'
    rw [Registry.find?_settle hr] at ho'
    by_cases hn : name = site.spec.output
    · rw [if_pos hn] at ho'
      rw [← Option.some.inj ho', Registry.location_settledOutput, Registry.outputLocation, ← hn,
        hnone]
      rfl
    · rw [if_neg hn, hnone] at ho'
      simp at ho'

/-! ## Stages in a row -/

/-- The stages of `sites` resolve one after the other on the registry `r`; `stages` is what they
record and `final` the registry that the last one leaves. -/
inductive ResolvesAll (settings : Settings) :
    Registry → List Site → List Stage → Registry → Prop where
  | nil (r : Registry) : ResolvesAll settings r [] [] r
  | cons {r final : Registry} {site : Site} {rest : List Site} {a : Operand} {b : Option Operand}
      {c : Contents} {formats : FormatPlan} {stages : List Stage}
      (h : Resolves settings r site a b c formats)
      (hrest : ResolvesAll settings (r.settle site c) rest stages final) :
      ResolvesAll settings r (site :: rest) (stageOf settings r site a b c formats :: stages) final

theorem ResolvesAll.wellFormed {settings : Settings} {r final : Registry} {sites : List Site}
    {stages : List Stage} (h : ResolvesAll settings r sites stages final) (hr : r.WellFormed) :
    final.WellFormed := by
  induction h with
  | nil => exact hr
  | cons hsite _ ih => exact ih (hsite.wellFormed hr)

theorem ResolvesAll.extends {settings : Settings} {r final : Registry} {sites : List Site}
    {stages : List Stage} (h : ResolvesAll settings r sites stages final) (hr : r.WellFormed) :
    r.Extends final := by
  induction h with
  | nil => exact .refl _
  | cons hsite _ ih =>
    exact (Registry.extends_settle hr hsite.vacant _).trans (ih (hsite.wellFormed hr))

/-- What every resolution gives its stage holds of all stages. -/
theorem ResolvesAll.forall_mem {settings : Settings} {r final : Registry} {sites : List Site}
    {stages : List Stage} {P : Stage → Prop} (h : ResolvesAll settings r sites stages final)
    (hP : ∀ {r site a b c formats}, Resolves settings r site a b c formats →
      P (stageOf settings r site a b c formats)) : ∀ s ∈ stages, P s := by
  induction h with
  | nil => simp
  | cons hsite _ ih => exact List.forall_mem_cons.mpr ⟨hP hsite, ih⟩

theorem ResolvesAll.index_eq {settings : Settings} {r final : Registry} {sites : List Site}
    {stages : List Stage} (h : ResolvesAll settings r sites stages final) :
    stages.map (·.index) = sites.map (·.index) := by
  induction h with
  | nil => rfl
  | cons _ _ ih =>
    rw [List.map_cons, List.map_cons, ih]
    rfl

theorem index_sitesFrom (index : Nat) (previous : Option StageSpec) (specs : List StageSpec) :
    (sitesFrom index previous specs).map (·.index) = List.range' index specs.length := by
  induction specs generalizing index previous with
  | nil => rfl
  | cons spec specs ih => simp [sitesFrom, ih, List.range'_succ]

/-- The stages of a build are numbered from 0 on. -/
theorem ResolvesAll.index_range {settings : Settings} {r final : Registry}
    {specs : List StageSpec} {stages : List Stage}
    (h : ResolvesAll settings r (sites specs) stages final) :
    stages.map (·.index) = List.range' 0 stages.length := by
  have hindex := h.index_eq
  rw [sites, index_sitesFrom] at hindex
  have hlen : stages.length = specs.length := by simpa using congrArg List.length hindex
  rw [hindex, hlen]

namespace BuildState

theorem step_of_resolves {settings : Settings} {state : BuildState} {site : Site} {a : Operand}
    {b : Option Operand} {c : Contents} {formats : FormatPlan}
    (h : Resolves settings state.registry site a b c formats) :
    (state.step settings site).value =
      ⟨state.registry.settle site c, state.errors, state.failed,
        state.stages ++ [stageOf settings state.registry site a b c formats]⟩ := by
  unfold step
  simp only [Logged.value_bind, resolveStage_of_resolves h, List.map_nil, List.append_nil,
    Logged.value_pure]

/-- Errors are only ever added. -/
theorem prefix_errors_step (settings : Settings) (state : BuildState) (site : Site) :
    state.errors <+: (state.step settings site).value.errors := by
  unfold step
  simp only [Logged.value_bind]
  split
  · exact List.prefix_append ..
  · exact List.prefix_append ..

theorem prefix_errors_run (settings : Settings) (sites : List Site) :
    ∀ state : BuildState, state.errors <+: (state.run settings sites).value.errors := by
  induction sites with
  | nil => exact fun state => List.prefix_refl _
  | cons site rest ih =>
    intro state
    exact (prefix_errors_step settings state site).trans (ih _)

/-- The complaints about a stage are among the errors behind it. -/
theorem causes_eq_nil_of_step {settings : Settings} {state : BuildState} {site : Site}
    (h : (state.step settings site).value.errors = []) :
    (resolveStage settings state.registry state.failed site).value.causes = [] := by
  unfold step at h
  simp only [Logged.value_bind] at h
  split at h
  · simp only [Logged.value_pure, List.append_eq_nil_iff, List.map_eq_nil_iff] at h
    exact h.2
  · simp only [Logged.value_bind, Logged.value_pure, List.append_eq_nil_iff,
      List.map_eq_nil_iff] at h
    exact h.2

/-- Stages that resolve in a row are recorded, and nothing is reported. -/
theorem run_of_resolvesAll {settings : Settings} {r final : Registry} {sites : List Site}
    {stages : List Stage} (h : ResolvesAll settings r sites stages final) :
    ∀ state : BuildState, state.registry = r →
      (state.run settings sites).value =
        ⟨final, state.errors, state.failed, state.stages ++ stages⟩ := by
  induction h with
  | nil r =>
    rintro state rfl
    simp [run]
  | cons hsite _ ih =>
    rintro state rfl
    rw [run, Logged.value_bind, step_of_resolves hsite, ih _ rfl]
    simp

/-- A run that reports nothing has resolved every stage. -/
theorem resolvesAll_of_errors_nil {settings : Settings} {sites : List Site} :
    ∀ state : BuildState, state.failed = [] → (state.run settings sites).value.errors = [] →
      ∃ stages final, ResolvesAll settings state.registry sites stages final := by
  induction sites with
  | nil => exact fun state _ _ => ⟨[], state.registry, .nil _⟩
  | cons site rest ih =>
    intro state hfailed herr
    rw [run, Logged.value_bind] at herr
    -- errors are only added, so the first stage has none either
    have hstep : (state.step settings site).value.errors = [] :=
      List.prefix_nil.mp (herr ▸ prefix_errors_run settings rest _)
    have hcauses := causes_eq_nil_of_step hstep
    rw [hfailed] at hcauses
    obtain ⟨a, b, c, formats, hsite⟩ := resolves_of_causes_nil hcauses
    rw [step_of_resolves hsite] at herr
    obtain ⟨stages, final, hrest⟩ :=
      ih ⟨state.registry.settle site c, state.errors, state.failed, _⟩ hfailed herr
    exact ⟨_, final, .cons hsite hrest⟩

end BuildState

/-- **What a successful build has done**: the pipeline as a whole has no errors, its stages resolve
in a row, and placement succeeds on the registry that they leave. -/
theorem build_eq_ok_iff {registry : Registry} {specs : List StageSpec} {settings : Settings}
    {p : Pipeline} :
    (Pipeline.build registry specs settings).value = .ok p ↔
      overallErrors settings specs = [] ∧
        ∃ stages final placed, ResolvesAll settings registry (sites specs) stages final ∧
          final.allocate.value = .ok placed ∧ p = ⟨settings, stages, placed⟩ := by
  unfold Pipeline.build
  simp only [Logged.value_bind]
  constructor
  · intro h
    by_cases herr : (BuildState.run settings ⟨registry, overallErrors settings specs, [], []⟩
        (sites specs)).value.errors.isEmpty = true
    · have hnil := List.isEmpty_iff.mp herr
      have hoverall : overallErrors settings specs = [] := by
        have hpre := BuildState.prefix_errors_run settings (sites specs)
          ⟨registry, overallErrors settings specs, [], []⟩
        rw [hnil] at hpre
        exact List.prefix_nil.mp hpre
      obtain ⟨stages, final, hall⟩ := BuildState.resolvesAll_of_errors_nil
        ⟨registry, overallErrors settings specs, [], []⟩ rfl hnil
      refine ⟨hoverall, stages, final, ?_⟩
      rw [BuildState.run_of_resolvesAll hall _ rfl, hoverall] at h
      simp only [List.isEmpty_nil, if_true, List.nil_append, Logged.value_bind] at h
      cases hplace : final.allocate.value with
      | error error =>
        rw [hplace] at h
        simp at h
      | ok placed =>
        rw [hplace] at h
        simp only [Logged.value_bind, Logged.value_pure, Except.ok.injEq] at h
        exact ⟨placed, hall, rfl, h.symm⟩
    · rw [if_neg herr] at h
      simp at h
  · rintro ⟨hoverall, stages, final, placed, hall, hplace, rfl⟩
    rw [BuildState.run_of_resolvesAll hall _ rfl, hoverall]
    simp only [List.isEmpty_nil, if_true, List.nil_append, Logged.value_bind, hplace,
      Logged.value_pure]

/-- A build can be evaluated in parts: the run of the stages, and then placement on the registry
`final` that it leaves. -/
theorem exists_build_of_run {registry : Registry} (final : Registry) {specs : List StageSpec}
    {settings : Settings} (hoverall : overallErrors settings specs = [])
    (hrun : (BuildState.run settings ⟨registry, [], [], []⟩ (sites specs)).value.errors = [])
    (hfinal : (BuildState.run settings ⟨registry, [], [], []⟩ (sites specs)).value.registry = final)
    (hplace : final.allocate.value.toBool = true) :
    ∃ p, (Pipeline.build registry specs settings).value = .ok p := by
  obtain ⟨stages, last, hall⟩ :=
    BuildState.resolvesAll_of_errors_nil ⟨registry, [], [], []⟩ rfl hrun
  rw [BuildState.run_of_resolvesAll hall _ rfl] at hfinal
  obtain rfl : last = final := hfinal
  cases hp : last.allocate.value with
  | error e =>
    rw [hp] at hplace
    simp [Except.toBool] at hplace
  | ok placed => exact ⟨_, build_eq_ok_iff.mpr ⟨hoverall, stages, last, placed, hall, hp, rfl⟩⟩

/-- A build can be evaluated as a whole, and its outcome checked on the way. -/
theorem exists_build_of_any (r : Registry) (specs : List StageSpec) (settings : Settings)
    (check : Pipeline → Bool)
    (h : (Pipeline.build r specs settings).value.toOption.any check = true) :
    ∃ p, (Pipeline.build r specs settings).value = .ok p ∧ check p = true := by
  cases hp : (Pipeline.build r specs settings).value with
  | error e => simp [hp, Except.toOption] at h
  | ok p => exact ⟨p, rfl, by simpa [hp, Except.toOption] using h⟩

end TileFusion
