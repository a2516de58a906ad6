import TileFusion.Proofs.Acceptance
import TileFusion.Proofs.ErrorReports

/-!
# What a report never leaves out

Some faults of a stage show in the descriptions alone: its loader does not suit its arithmetic unit,
it reuses the wrong operand, it mixes with stages that tilize. They are looked for first, and then a
stage can end early in many ways: a source is missing or waits for a stage that has failed, its
output is taken, its formats do not go together. Whatever happens, the faults are reported:

> `faultsAt platform specs i`: what the descriptions show of stage `i`;
> `build_reports_faults`: if there is such a fault the build fails, and its report has all of them,
> each under its stage.

Two things could lose a fault on the way. A stage that does not resolve replaces its causes by a
refusal of the registry, but only if there were none (`prefix_causes_resolveWith`); and the report
is sorted, which keeps all errors and the order of those of one stage.
-/

namespace TileFusion

/-! ## What the descriptions show -/

/-- The stage `i` of a list among its neighbours. -/
def siteAt (specs : List StageSpec) (i : Nat) (s : StageSpec) : Site where
  index := i
  previous := match i with
    | 0 => none
    | j + 1 => specs[j]?
  spec := s
  later := specs.drop (i + 1)

/-- What is wrong with stage `i` on the face of the descriptions: it tilizes where another stage
does not, it breaks the chain of reuse, its units do not go together, or it reads a wrong number of
operands. No operand is looked at. -/
def faultsAt (platform : Platform) (specs : List StageSpec) (i : Nat) : List Cause :=
  match specs[i]? with
  | none => []
  | some s =>
    (if platform = .blackhole ∧ s.tilizes = true ∧ ∃ t ∈ specs, t.tilizes = false then
        [.restriction platform .mixedTilize]
      else []) ++
      descriptionCauses platform (siteAt specs i s)

theorem getElem?_sitesFrom (specs : List StageSpec) :
    ∀ (index : Nat) (previous : Option StageSpec) (i : Nat),
      (sitesFrom index previous specs)[i]? = specs[i]?.map fun s =>
        ⟨index + i, match i with | 0 => previous | j + 1 => specs[j]?, s, specs.drop (i + 1)⟩ := by
  induction specs with
  | nil =>
    intro index previous i
    simp [sitesFrom]
  | cons spec rest ih =>
    intro index previous i
    cases i with
    | zero => simp [sitesFrom]
    | succ i =>
      show (sitesFrom (index + 1) (some spec) rest)[i]? = _
      rw [ih]
      -- the stage in front of the tail is the head
      cases i with
      | zero => simp
      | succ i => simp [Nat.add_comm, Nat.add_left_comm]

/-- A stage stands among its neighbours at its own place. -/
theorem getElem?_sites {specs : List StageSpec} {i : Nat} {s : StageSpec}
    (h : specs[i]? = some s) : (sites specs)[i]? = some (siteAt specs i s) := by
  rw [sites, getElem?_sitesFrom, h, Option.map_some, Nat.zero_add]
  rfl

theorem siteAt_mem_sites {specs : List StageSpec} {i : Nat} {s : StageSpec}
    (h : specs[i]? = some s) : siteAt specs i s ∈ sites specs :=
  List.mem_of_getElem? (getElem?_sites h)

/-! ## What a stage adds to the errors -/

/-- What is wrong with the description is reported first, however far the stage is resolved. -/
theorem prefix_causes_resolveWith (settings : Settings) (r : Registry) (site : Site)
    (early : List Cause) (a : Operand) (b : Option Operand) :
    early <+: (resolveWith settings r site early a b).value.causes := by
  by_cases hearly : early = []
  · rw [hearly]
    exact List.nil_prefix
  unfold resolveWith
  cases hclaim : claimOutput r site with
  | mk declared output =>
    cases output with
    | error cause =>
      simp only [Logged.value_pure, List.append_assoc]
      exact List.prefix_append ..
    | ok output =>
      cases hplan : (formatRequest settings site.spec a b).plan with
      | error error =>
        simp only [hplan, Logged.value_pure, List.append_assoc]
        exact List.prefix_append ..
      | ok formats =>
        -- the registry is not asked, since there is a cause already
        simp only [hplan]
        rw [if_neg (by simp [hearly])]
        simp only [Logged.value_pure, List.append_assoc]
        exact List.prefix_append ..

theorem prefix_causes_resolveStage (settings : Settings) (r : Registry) (failed : List Nat)
    (site : Site) :
    descriptionCauses settings.platform site <+:
      (resolveStage settings r failed site).value.causes := by
  unfold resolveStage
  simp only
  split
  next => exact prefix_causes_resolveWith ..
  next =>
    simp only [Logged.value_pure, List.append_assoc]
    exact List.prefix_append ..

namespace BuildState

/-- A step reports all causes that it finds, under the index of its stage. -/
theorem errors_step (settings : Settings) (state : BuildState) (site : Site) :
    (state.step settings site).value.errors = state.errors ++
      (resolveStage settings state.registry state.failed site).value.causes.map
        (BuildError.mk site.index) := by
  unfold step
  simp only [Logged.value_bind]
  split <;> rfl

/-- A run adds what the descriptions show of each of its stages, whatever became of the others. -/
theorem exists_errors_run (settings : Settings) (sites : List Site) :
    ∀ state : BuildState, ∃ added,
      (state.run settings sites).value.errors = state.errors ++ added ∧
        ∀ site ∈ sites, ((descriptionCauses settings.platform site).map
          (BuildError.mk site.index)).Sublist added := by
  induction sites with
  | nil =>
    intro state
    exact ⟨[], (List.append_nil _).symm, by simp⟩
  | cons site rest ih =>
    intro state
    obtain ⟨added, hrun, hrest⟩ := ih (state.step settings site).value
    rw [errors_step, List.append_assoc] at hrun
    refine ⟨_, hrun, ?_⟩
    intro x hx
    rcases List.mem_cons.mp hx with rfl | hx
    · have hstart := prefix_causes_resolveStage settings state.registry state.failed x
      exact ((hstart.map _).sublist).trans (List.sublist_append_left ..)
    · exact (hrest x hx).trans (List.sublist_append_right ..)

end BuildState

/-! ## The whole report -/

theorem mixed_mem_overallErrors {settings : Settings} {specs : List StageSpec} {i : Nat}
    {s : StageSpec} (hs : specs[i]? = some s) (hplatform : settings.platform = .blackhole)
    (htilizes : s.tilizes = true) (hother : ∃ t ∈ specs, t.tilizes = false) :
    ⟨i, .restriction settings.platform .mixedTilize⟩ ∈ overallErrors settings specs := by
  obtain ⟨t, ht, hplain⟩ := hother
  have hany : specs.any (·.tilizes) = true :=
    List.any_eq_true.mpr ⟨s, List.mem_of_getElem? hs, htilizes⟩
  have hall : specs.all (·.tilizes) = false :=
    List.all_eq_false.mpr ⟨t, ht, by simp [hplain]⟩
  apply List.mem_append_right
  unfold mixingErrors
  rw [if_pos (by simp [hplatform, hany, hall])]
  refine List.mem_filterMap.mpr ⟨siteAt specs i s, siteAt_mem_sites hs, ?_⟩
  exact if_pos htilizes

section Report

variable (r : Registry) (specs : List StageSpec) (settings : Settings)

/-- All faults of a stage are reported before the report is sorted, -/
theorem faults_sublist_assemble (i : Nat) :
    ((faultsAt settings.platform specs i).map (BuildError.mk i)).Sublist
      (assemble r specs settings).errors := by
  unfold faultsAt
  cases hs : specs[i]? with
  | none => simp
  | some s =>
    obtain ⟨added, hrun, hadded⟩ := BuildState.exists_errors_run settings (sites specs)
      ⟨r, overallErrors settings specs, [], []⟩
    rw [assemble, hrun]
    simp only [List.map_append]
    apply List.Sublist.append
    · split
      next hmixed =>
        obtain ⟨hplatform, htilizes, hother⟩ := hmixed
        exact List.singleton_sublist.mpr (mixed_mem_overallErrors hs hplatform htilizes hother)
      next => exact List.nil_sublist _
    · exact hadded _ (siteAt_mem_sites hs)

/-- and sorting by stage keeps them and their order. -/
theorem faults_sublist_sortErrors (i : Nat) :
    ((faultsAt settings.platform specs i).map (BuildError.mk i)).Sublist
      (sortErrors (assemble r specs settings).errors) := by
  refine List.sublist_mergeSort stageOrder_trans stageOrder_total ?_
    (faults_sublist_assemble r specs settings i)
  rw [List.pairwise_map]
  exact List.pairwise_of_forall fun _ _ => by simp

/-- A fault in the descriptions fails the build, with all such faults in the report. -/
theorem exists_report_of_fault {i : Nat} (h : faultsAt settings.platform specs i ≠ []) :
    ∃ errors, (Pipeline.build r specs settings).value = .error errors ∧
      ∀ j, ((faultsAt settings.platform specs j).map (BuildError.mk j)).Sublist errors := by
  refine ⟨_, build_eq_error_iff.mpr (.inl ⟨?_, rfl⟩), faults_sublist_sortErrors r specs settings⟩
  intro hnil
  have hsub := faults_sublist_assemble r specs settings i
  rw [hnil, List.sublist_nil, List.map_eq_nil_iff] at hsub
  exact h hsub

/-- A stage breaks the chain of reuse: it is the first one and reuses something, or it is a later
one and does not reuse what the stage in front writes. -/
def BreaksChain (i : Nat) (s : StageSpec) : Prop :=
  (i = 0 ∧ s.loader.reuse ≠ .none) ∨
    ∃ j t, i = j + 1 ∧ specs[j]? = some t ∧
      (s.loader.reuse = .none ∨ s.loader.reused ≠ some t.output)

variable {specs}

theorem fusionFaults_ne_nil_of_breaksChain {i : Nat} {s : StageSpec}
    (h : BreaksChain specs i s) : fusionFaults (siteAt specs i s) ≠ [] := by
  rw [ne_eq, fusionFaults_eq_nil_iff]
  intro hchained
  obtain ⟨rfl, hreuse⟩ | ⟨j, t, rfl, ht, hbroken⟩ := h
  · exact hreuse hchained
  · have hprevious : (siteAt specs (j + 1) s).previous = some t := ht
    rw [hprevious] at hchained
    rcases hbroken with hnone | hother
    · exact hchained.1 hnone
    · exact hother hchained.2

variable (specs)

/-- **Every fault that the descriptions show is reported**, whatever else is wrong: with unknown
operands, stages that have failed, formats, names, shapes or the batch. -/
theorem build_reports_faults :
    ((∃ i, faultsAt settings.platform specs i ≠ []) →
      ∃ errors, (Pipeline.build r specs settings).value = .error errors) ∧
    (∀ errors, (Pipeline.build r specs settings).value = .error errors →
      ∀ i, ((faultsAt settings.platform specs i).map (BuildError.mk i)).Sublist errors) ∧
    ∀ (i : Nat) (s : StageSpec), specs[i]? = some s → BreaksChain specs i s →
      ∃ errors, (Pipeline.build r specs settings).value = .error errors ∧
        ∃ fault, ⟨i, .fusion fault⟩ ∈ errors := by
  refine ⟨?_, ?_, ?_⟩
  · intro hfault
    obtain ⟨i, hi⟩ := hfault
    obtain ⟨errors, herrors, -⟩ := exists_report_of_fault r specs settings hi
    exact ⟨errors, herrors⟩
  · intro errors herrors i
    by_cases hi : faultsAt settings.platform specs i = []
    · simp [hi]
    · obtain ⟨errors', herrors', hall⟩ := exists_report_of_fault r specs settings hi
      rw [herrors] at herrors'
      rw [Except.error.inj herrors']
      exact hall i
  · intro i s hs hbroken
    obtain ⟨fault, hfault⟩ := List.exists_mem_of_ne_nil _
      (fusionFaults_ne_nil_of_breaksChain hbroken)
    have hmem : Cause.fusion fault ∈ faultsAt settings.platform specs i := by
      simp only [faultsAt, hs, descriptionCauses, List.mem_append, List.mem_map]
      exact .inr (.inl (.inl ⟨fault, hfault, rfl⟩))
    obtain ⟨errors, herrors, hall⟩ :=
      exists_report_of_fault r specs settings (List.ne_nil_of_mem hmem)
    exact ⟨errors, herrors, fault, (hall i).mem (List.mem_map_of_mem hmem)⟩

end Report

/-- The fused stages with a source that nobody has declared, a loader that tilizes and a chain that
is broken at both stages. -/
def tangledSpecs : List StageSpec :=
  (fusedSpecs.modifyHead fun s => { s with
      loader := ⟨.direct, "a", some "missing", .sourceA, false, false⟩ }).modify 1 fun s =>
    { s with loader := ⟨.tilize, "sum", none, .none, false, false⟩ }

/-- Nothing resolves, batches are empty, and still each fault is there. -/
theorem build_reports_faults_tangled :
    ∃ errors, (Pipeline.build crowdedRegistry tangledSpecs
        ⟨.blackhole, false, 0, .half⟩).value = .error errors ∧
      ⟨0, .fusion .nothingToReuse⟩ ∈ errors ∧
      ⟨1, .restriction .blackhole .mixedTilize⟩ ∈ errors ∧
      ⟨1, .restriction .blackhole (.unsupportedPair .tilize (.eltwise .mul))⟩ ∈ errors ∧
      ⟨1, .shape (.operandCount (.eltwise .mul) 2 1)⟩ ∈ errors ∧
      ∃ fault, ⟨1, .fusion fault⟩ ∈ errors := by
  obtain ⟨hfails, hall, hchain⟩ := build_reports_faults crowdedRegistry tangledSpecs
    ⟨.blackhole, false, 0, .half⟩
  obtain ⟨errors, herrors⟩ := hfails ⟨0, by decide⟩
  obtain ⟨errors', herrors', hfusion⟩ := hchain 1 _ rfl (.inr ⟨0, _, rfl, rfl, .inl rfl⟩)
  rw [herrors] at herrors'
  obtain rfl := Except.error.inj herrors'
  exact ⟨errors, herrors, (hall errors herrors 0).mem (by decide),
    (hall errors herrors 1).mem (by decide), (hall errors herrors 1).mem (by decide),
    (hall errors herrors 1).mem (by decide), hfusion⟩

end TileFusion
