import TileFusion.Proofs.AppendedStage
import TileFusion.Proofs.FullReports
import TileFusion.Proofs.LowestPlaces

/-!
# The errors of one stage

Stages are resolved in order, but the claim of an output looks ahead: its role depends on whether a
later stage reads it. So it is not plain that what is reported about a stage is settled by the
stages up to it. This file shows that it is.

> `run_plain`: a run in which outputs and intermediates are not told apart, and no stage sees the
> ones behind it, finds the same errors;
> `localErrors_congr`: two lists of stages that begin alike get the same errors about the stages
> in which they agree, apart from those that are about the pipeline as a whole.

The report is sorted by stage, which keeps the errors of one stage in the order in which they were
found (`filter_sortErrors`).
-/

namespace TileFusion

/-! ## Resolving without the stages behind -/

@[simps] def StageOutcome.plain (outcome : StageOutcome) : StageOutcome :=
  { outcome with registry := outcome.registry.plain }

@[simps] def BuildState.plain (state : BuildState) : BuildState :=
  { state with registry := state.registry.plain }

/-- A source is found by its name; its role is not looked at. -/
theorem findSource_plain (r : Registry) (failed : List Nat) (name : String) :
    findSource r.plain failed name = (findSource r failed name).map Operand.plain := by
  unfold findSource
  rw [Registry.find?_plain]
  cases r.find? name with
  | none => rfl
  | some o =>
    have hres : o.plain.isResolved = o.isResolved := rfl
    simp only [Option.map_some, hres, Operand.plain_producer]
    split
    next => rfl
    next => split <;> rfl

theorem findSecond_plain (r : Registry) (failed : List Nat) (name : Option String) :
    findSecond r.plain failed name = (findSecond r failed name).map (Option.map Operand.plain) := by
  cases name with
  | none => rfl
  | some name =>
    show (findSource r.plain failed name).map some = ((findSource r failed name).map some).map _
    rw [findSource_plain]
    cases findSource r failed name <;> rfl

namespace Registry

theorem push_plain (r : Registry) (o : Operand) : r.plain.push o.plain = (r.push o).plain := by
  simp [push, plain]

theorem modify_plain (r : Registry) (id : Nat) (o : Operand) :
    (r.plain.modify id fun _ => o.plain) = (r.modify id fun _ => o).plain := by
  unfold modify plain
  rw [mk.injEq]
  refine List.ext_getElem? fun i => ?_
  simp only [List.getElem?_map, List.getElem?_modify]
  cases r.operands[i]? with
  | none => rfl
  | some x => by_cases hi : id = i <;> simp [hi]

theorem resolve_plain (r : Registry) (o : Operand) (dims : Dims) (format : DataFormat) :
    (r.plain.resolve o.plain dims format).value = (r.resolve o dims format).value.map plain := by
  have hsettle : o.plain.resolve? dims format = (o.resolve? dims format).map Operand.plain := by
    unfold Operand.resolve?
    cases Contents.of? dims format with
    | none => rfl
    | some c =>
      simp only [Option.bind_eq_bind, Option.bind_some, Operand.plain_location]
      split <;> rfl
  unfold resolve
  rw [hsettle]
  cases o.resolve? dims format with
  | none => rfl
  | some o' =>
    show Except.ok (r.plain.modify o.id fun _ => o'.plain) = _
    rw [modify_plain]
    rfl

end Registry

/-- The role that the stages behind give to an output is all they change of it. -/
theorem claimOutput_plain (r : Registry) (site : Site) :
    claimOutput r.plain site.alone =
      ((claimOutput r site).1.plain, (claimOutput r site).2.map Operand.plain) := by
  unfold claimOutput
  simp only [Site.alone_spec, Registry.find?_plain, Site.outputRole_alone]
  cases r.find? site.spec.output with
  | none =>
    have hfresh : r.plain.fresh site.spec.output site.outputRole.plain (some site.index) none =
        (r.fresh site.spec.output site.outputRole (some site.index) none).plain := by
      simp [Registry.fresh, Registry.size, Operand.plain]
    simp only [Option.map_none, Site.alone_index, hfresh, Registry.push_plain]
    rfl
  | some o =>
    have hrole : (o.plain.role == .input) = (o.role == .input) := by
      cases h : o.role <;> simp [h, Role.plain]
    have hclaimed : (r.plain.modify o.id fun _ =>
          ⟨o.id, o.name, site.outputRole.plain, o.producer, o.location, o.contents⟩) =
        (r.modify o.id fun _ => { o with role := site.outputRole }).plain :=
      r.modify_plain o.id { o with role := site.outputRole }
    have hres : o.plain.isResolved = o.isResolved := rfl
    simp only [Option.map_some, hrole, hres, Operand.plain_producer, Operand.plain_id,
      Operand.plain_name, Operand.plain_location, Operand.plain_contents, Site.alone_index,
      hclaimed]
    cases (o.role == .input || o.isResolved) with
    | true => rfl
    | false =>
      cases o.producer with
      | none => rfl
      | some producer =>
        cases hp : (producer == site.index) <;> simp [hp, Except.map, Operand.plain]

variable (settings : Settings)

/-- From its sources on, a stage is resolved without regard to the stages behind it. -/
theorem resolveWith_plain (r : Registry) (site : Site) (early : List Cause) (a : Operand)
    (b : Option Operand) :
    (resolveWith settings r.plain site.alone early a.plain (b.map Operand.plain)).value =
      (resolveWith settings r site early a b).value.plain := by
  unfold resolveWith
  simp only [Site.alone_spec, stageShape_plain, formatRequest_plain, shapeFaults_plain,
    claimOutput_plain]
  obtain ⟨declared, output⟩ := claimOutput r site
  cases output with
  | error cause => rfl
  | ok output =>
    cases (formatRequest settings site.spec a b).plan with
    | error error => rfl
    | ok formats =>
      -- what is found last does not depend on the registry
      generalize early ++ (shapeFaults site.spec a b).map Cause.shape ++ _ ++
        (if settings.batchSize ≤ accumulatorCapacity settings.platform
          (needsWideDest (formatRequest settings site.spec a b)) settings.destSync then []
          else _) = causes
      have hids : (b.map Operand.plain).map (·.id) = b.map (·.id) := by
        cases b <;> rfl
      simp only [Except.map, hids]
      by_cases hnone : causes.isEmpty = true
      · simp only [if_pos hnone, Logged.value_bind, Registry.resolve_plain]
        cases (declared.resolve output (stageShape site.spec a b).dims
            site.spec.outputFormat).value with
        | error error => rfl
        | ok resolved =>
          simp only [Except.map]
          by_cases hclamped : (stageShape site.spec a b).dims.tileCount?.getD 0 < settings.batchSize
          · simp only [if_pos hclamped]
            rfl
          · simp only [if_neg hclamped]
            rfl
      · simp only [if_neg hnone]
        rfl

/-- A stage finds the same faults, and settles the same output, whatever stands behind it. -/
theorem resolveStage_plain (r : Registry) (failed : List Nat) (site : Site) :
    (resolveStage settings r.plain failed site.alone).value =
      (resolveStage settings r failed site).value.plain := by
  have hearly : descriptionCauses settings.platform site.alone =
      descriptionCauses settings.platform site := rfl
  unfold resolveStage
  simp only [Site.alone_spec, findSource_plain, findSecond_plain, claimOutput_plain, hearly]
  cases findSource r failed site.spec.loader.sourceA with
  | error causes =>
    simp only [Logged.value_pure, causesOf_map, searchCauses_map]
    rfl
  | ok a =>
    cases findSecond r failed site.spec.loader.sourceB with
    | error causes =>
      simp only [Logged.value_pure, causesOf_map]
      rfl
    | ok b => exact resolveWith_plain settings r site _ a b

namespace BuildState

/-- One step. -/
theorem step_plain (state : BuildState) (site : Site) :
    (state.plain.step settings site.alone).value = (state.step settings site).value.plain := by
  unfold step
  simp only [Logged.value_bind, plain_registry, plain_failed, resolveStage_plain]
  generalize (resolveStage settings state.registry state.failed site).value = outcome
  obtain ⟨registry, causes, stage⟩ := outcome
  cases stage <;> rfl

/-- **The whole run.** -/
theorem run_plain (sites : List Site) (state : BuildState) :
    (state.plain.run settings (sites.map Site.alone)).value =
      (state.run settings sites).value.plain := by
  induction sites generalizing state with
  | nil => rfl
  | cons site sites ih =>
    rw [List.map_cons, run, Logged.value_bind, step_plain, ih, run, Logged.value_bind]

/-- What a run reports does not depend on what was reported before. -/
theorem run_prepend (before : List BuildError) (sites : List Site) (state : BuildState) :
    (({ state with errors := before ++ state.errors } : BuildState).run settings sites).value =
      { (state.run settings sites).value with
        errors := before ++ (state.run settings sites).value.errors } := by
  induction sites generalizing state with
  | nil => rfl
  | cons site sites ih =>
    have hstep : (({ state with errors := before ++ state.errors } : BuildState).step
        settings site).value = { (state.step settings site).value with
          errors := before ++ (state.step settings site).value.errors } := by
      unfold step
      simp only [Logged.value_bind]
      split <;> simp [List.append_assoc]
    rw [run, Logged.value_bind, hstep, ih, run, Logged.value_bind]

variable {settings}

/-- Later stages report nothing about stage `i`. -/
theorem filter_errors_run {i : Nat} {P : BuildError → Bool} (hP : ∀ e, P e = true → e.stage = i)
    {sites : List Site} (hne : ∀ site ∈ sites, site.index ≠ i) (state : BuildState) :
    (state.run settings sites).value.errors.filter P = state.errors.filter P := by
  induction sites generalizing state with
  | nil => rfl
  | cons site sites ih =>
    rw [run, Logged.value_bind, ih fun x hx => hne x (List.mem_cons_of_mem _ hx), errors_step,
      List.filter_append]
    have hnone : ((resolveStage settings state.registry state.failed site).value.causes.map
        (BuildError.mk site.index)).filter P = [] := by
      rw [List.filter_eq_nil_iff]
      intro e he hPe
      obtain ⟨cause, -, rfl⟩ := List.mem_map.mp he
      exact hne site (List.mem_cons_self ..) (hP _ hPe)
    rw [hnone, List.append_nil]

end BuildState

/-! ## Sites -/

theorem index_of_getElem?_sites {specs : List StageSpec} {k : Nat} {site : Site}
    (h : (sites specs)[k]? = some site) : site.index = k := by
  rw [sites, getElem?_sitesFrom, Option.map_eq_some_iff] at h
  obtain ⟨s, -, rfl⟩ := h
  exact Nat.zero_add k

/-- The stages in front of a place have other indices, as have those behind it. -/
theorem ne_index_of_mem_take_sites {specs : List StageSpec} {i : Nat} :
    ∀ site ∈ (sites specs).take i, site.index ≠ i := by
  intro site hsite
  obtain ⟨k, hk⟩ := List.mem_iff_getElem?.mp hsite
  rw [List.getElem?_take] at hk
  split at hk
  next hlt => rw [index_of_getElem?_sites hk]; exact Nat.ne_of_lt hlt
  next => simp at hk

theorem ne_index_of_mem_drop_sites {specs : List StageSpec} {i : Nat} :
    ∀ site ∈ (sites specs).drop (i + 1), site.index ≠ i := by
  intro site hsite
  obtain ⟨k, hk⟩ := List.mem_iff_getElem?.mp hsite
  rw [List.getElem?_drop] at hk
  have := index_of_getElem?_sites hk
  omega

/-- Without the stages behind, the first sites are those of the first stages. -/
theorem map_alone_take_sites {specs specs' : List StageSpec} {n : Nat}
    (h : specs.take n = specs'.take n) :
    ((sites specs).take n).map Site.alone = ((sites specs').take n).map Site.alone := by
  refine List.ext_getElem? fun k => ?_
  by_cases hk : k < n
  · have hat : ∀ j < n, specs[j]? = specs'[j]? := by
      intro j hj
      rw [← List.getElem?_take_of_lt hj, h, List.getElem?_take_of_lt hj]
    simp only [List.getElem?_map, List.getElem?_take_of_lt hk, sites, getElem?_sitesFrom,
      Option.map_map, hat k hk]
    cases k with
    | zero => rfl
    | succ j =>
      show specs'[j + 1]?.map (fun s => (⟨0 + (j + 1), specs[j]?, s, []⟩ : Site)) = _
      rw [hat j (by omega)]
      rfl
  · simp only [List.getElem?_map, List.getElem?_take, if_neg hk]

/-! ## What is reported about one stage -/

/-- The error is about stage `i` itself, and not about the pipeline as a whole: it is neither a
restriction on mixing loaders nor a failure to find room. -/
def BuildError.isLocal (i : Nat) (e : BuildError) : Bool :=
  e.stage == i && match e.cause with
    | .restriction _ .mixedTilize | .placement _ => false
    | _ => true

/-- The errors of a build that are about stage `i` itself, as they are reported. -/
def localErrors (i : Nat) : Except (List BuildError) Pipeline → List BuildError
  | .ok _ => []
  | .error errors => errors.filter (BuildError.isLocal i)

theorem BuildError.stage_of_isLocal {i : Nat} {e : BuildError} (h : e.isLocal i = true) :
    e.stage = i := by
  unfold isLocal at h
  rw [Bool.and_eq_true, beq_iff_eq] at h
  exact h.1

/-- Sorting keeps the errors of one stage in their order. -/
theorem filter_sortErrors {i : Nat} {P : BuildError → Bool} (hP : ∀ e, P e = true → e.stage = i)
    (errors : List BuildError) : (sortErrors errors).filter P = errors.filter P := by
  have hequal : (errors.filter P).Pairwise fun x y => decide (x.stage ≤ y.stage) = true := by
    refine List.pairwise_of_forall_mem_list fun x hx y hy => ?_
    rw [hP x (List.mem_filter.mp hx).2, hP y (List.mem_filter.mp hy).2]
    simp
  have hsub := (List.sublist_mergeSort stageOrder_trans stageOrder_total hequal
    List.filter_sublist).filter P
  rw [List.filter_filter] at hsub
  simp only [Bool.and_self] at hsub
  refine (hsub.eq_of_length ?_).symm
  exact (((List.mergeSort_perm errors _).filter P).length_eq).symm

section Report

variable {r : Registry} {specs specs' : List StageSpec} {settings : Settings} {i : Nat}

/-- What placement reports is never mistaken for a fault of a single stage. -/
theorem Registry.WellFormed.ofRegistry_of_allocate (hr : r.WellFormed) {e : RegistryError}
    (h : r.allocate.value = .error e) : Cause.ofRegistry e = .placement e := by
  obtain ⟨x, y, -, rfl⟩ | ⟨-, o, rfl, -⟩ := hr.allocate_eq_error_iff.mp h <;> rfl

/-- A report about a stage holds what the run has found. -/
theorem localErrors_build (hr : r.Declared) (specs : List StageSpec) (settings : Settings)
    (i : Nat) :
    localErrors i (Pipeline.build r specs settings).value =
      (assemble r specs settings).errors.filter (BuildError.isLocal i) := by
  cases hbuild : (Pipeline.build r specs settings).value with
  | ok p =>
    have hnil : (assemble r specs settings).errors = [] := by
      by_contra hne
      have herr := build_eq_error_iff.mpr (Or.inl ⟨hne, rfl⟩)
      rw [hbuild] at herr
      simp at herr
    rw [hnil]
    rfl
  | error errors =>
    obtain ⟨-, rfl⟩ | ⟨hnil, e, halloc, rfl⟩ := build_eq_error_iff.mp hbuild
    · exact filter_sortErrors (fun _ => BuildError.stage_of_isLocal) _
    · -- the only error is one of placement
      have hwf := (accounts_assemble hr specs settings).wellFormed
      rw [hnil]
      simp [localErrors, placementError, hwf.ofRegistry_of_allocate halloc, BuildError.isLocal]

/-- What the run finds about a stage it has found behind that stage. -/
theorem filter_errors_assemble :
    (assemble r specs settings).errors.filter (BuildError.isLocal i) =
      (overallErrors settings specs).filter (BuildError.isLocal i) ++
        (BuildState.run settings ⟨r, [], [], []⟩ ((sites specs).take (i + 1))).value.errors.filter
          (BuildError.isLocal i) := by
  have hstart := BuildState.run_prepend settings (overallErrors settings specs) (sites specs)
    ⟨r, [], [], []⟩
  rw [List.append_nil] at hstart
  rw [assemble, hstart, List.filter_append]
  congr 1
  conv_lhs => rw [← List.take_append_drop (i + 1) (sites specs)]
  rw [BuildState.value_run_append]
  exact BuildState.filter_errors_run (fun _ => BuildError.stage_of_isLocal)
    ne_index_of_mem_drop_sites _

/-- The faults of the pipeline as a whole that count for a stage do not depend on the stages behind
it. -/
theorem filter_overallErrors (h : specs.take (i + 1) = specs'.take (i + 1)) :
    (overallErrors settings specs).filter (BuildError.isLocal i) =
      (overallErrors settings specs').filter (BuildError.isLocal i) := by
  have hmixing : ∀ xs, (mixingErrors settings.platform xs).filter (BuildError.isLocal i) = [] := by
    intro xs
    rw [List.filter_eq_nil_iff]
    intro e he hlocal
    unfold mixingErrors at he
    split at he
    next =>
      obtain ⟨site, -, hsite⟩ := List.mem_filterMap.mp he
      split at hsite
      next =>
        rw [← Option.some.inj hsite] at hlocal
        simp [BuildError.isLocal] at hlocal
      next => simp at hsite
    next => simp at he
  have hempty : specs.isEmpty = specs'.isEmpty := by
    cases specs <;> cases specs' <;> simp_all
  simp only [overallErrors, List.filter_append, hmixing, hempty]

/-- **What is reported about a stage is settled by the stages up to it.** -/
theorem localErrors_congr (hr : r.Declared) (h : specs.take (i + 1) = specs'.take (i + 1)) :
    localErrors i (Pipeline.build r specs settings).value =
      localErrors i (Pipeline.build r specs' settings).value := by
  have hrun : ∀ xs, (BuildState.run settings ⟨r, [], [], []⟩ ((sites xs).take (i + 1))).value.errors
      = ((⟨r.plain, [], [], []⟩ : BuildState).run settings
          (((sites xs).take (i + 1)).map Site.alone)).value.errors := by
    intro xs
    have hplain := BuildState.run_plain settings ((sites xs).take (i + 1)) ⟨r, [], [], []⟩
    exact (congrArg BuildState.errors hplain).symm
  rw [localErrors_build hr, localErrors_build hr, filter_errors_assemble, filter_errors_assemble,
    filter_overallErrors h, hrun specs, hrun specs', map_alone_take_sites h]

end Report

end TileFusion
