import TileFusion.Proofs.MemoryLayout
import TileFusion.Proofs.Validity

/-!
# What a build reports

A build goes on behind a stage that has failed, and a stage that reads the output of a failed one is
not blamed for it. So a stage may be missing without an error of its own, and nothing in the code
says why there has to be an error at all. This file says that no stage gets lost:

> `build_accounts_for_stages`: a pipeline has the stages that were asked for, in order; a failure
> reports at least one error, and a stage without an error of its own reads the output of an earlier
> stage that is missing as well.

A stage ends in one of two ways (`BuildState.step_cases`). It resolves, or its output is claimed and
left pending; then it has complained, or one of its sources waits for a stage that has failed. The
second way out is still open at the end of the build, since a pending output is touched only by the
stage it was declared for (`find?_step_of_producer`).
-/

namespace TileFusion

/-! ## How a stage fails -/

theorem causesOf_map {α β : Type} (f : α → β) (x : Except Cause α) :
    causesOf (x.map f) = causesOf x := by
  cases x <;> rfl

theorem searchCauses_map {α β : Type} (f : α → β) (x : Except (List Cause) α) :
    searchCauses (x.map f) = searchCauses x := by
  cases x <;> rfl

/-- The operand of a name waits for a stage that has failed. -/
def Waits (r : Registry) (failed : List Nat) (name : String) : Prop :=
  ∃ o j, r.find? name = some o ∧ o.isResolved = false ∧ o.producer = some j ∧ j ∈ failed

theorem waits_of_findSource {r : Registry} {failed : List Nat} {name : String} {cs : List Cause}
    (h : findSource r failed name = .error cs) : cs ≠ [] ∨ Waits r failed name := by
  unfold findSource at h
  split at h
  next =>
    obtain rfl := Except.error.inj h
    exact .inl (by simp)
  next o ho =>
    split at h
    next => simp at h
    next hpend =>
      split at h
      next hany =>
        -- the only silent way out
        cases hj : o.producer with
        | none => simp [hj] at hany
        | some j => exact .inr ⟨o, j, ho, by simpa using hpend, hj, by simpa [hj] using hany⟩
      next =>
        obtain rfl := Except.error.inj h
        exact .inl (by simp)

theorem waits_of_findSecond {r : Registry} {failed : List Nat} {name : Option String}
    {cs : List Cause} (h : findSecond r failed name = .error cs) :
    cs ≠ [] ∨ ∃ n ∈ name.toList, Waits r failed n := by
  cases name with
  | none => simp [findSecond] at h
  | some name =>
    cases hs : findSource r failed name with
    | ok o => simp [findSecond, hs, Except.map] at h
    | error cs' =>
      have hcs : cs' = cs := by simpa [findSecond, hs, Except.map] using h
      obtain hne | hwait := waits_of_findSource hs
      · exact .inl (hcs ▸ hne)
      · exact .inr ⟨name, by simp, hwait⟩

/-- A stage whose sources are known and that does not resolve has complained. -/
theorem resolveWith_cases (settings : Settings) (r : Registry) (site : Site) (early : List Cause)
    (a : Operand) (b : Option Operand) :
    (resolveWith settings r site early a b).value.causes = [] ∨
      ∃ causes, causes ≠ [] ∧
        (resolveWith settings r site early a b).value = ⟨(claimOutput r site).1, causes, none⟩ := by
  by_cases hnil : (resolveWith settings r site early a b).value.causes = []
  · exact .inl hnil
  · refine .inr ⟨_, hnil, ?_⟩
    unfold resolveWith at hnil ⊢
    cases hclaim : claimOutput r site with
    | mk declared output =>
      cases output with
      | error cause => simp
      | ok output =>
        cases hplan : (formatRequest settings site.spec a b).plan with
        | error error => simp [hplan]
        | ok formats =>
          simp only [hclaim, hplan] at hnil ⊢
          generalize early ++ (shapeFaults site.spec a b).map Cause.shape ++ _ ++
            (if settings.batchSize ≤ accumulatorCapacity settings.platform
              (needsWideDest (formatRequest settings site.spec a b)) settings.destSync then []
              else _) = causes at hnil ⊢
          by_cases hempty : causes.isEmpty = true
          · rw [if_pos hempty] at hnil ⊢
            cases hres : (declared.resolve output (stageShape site.spec a b).dims
                site.spec.outputFormat).value with
            | error error => simp [hres]
            | ok resolved =>
              -- this is the stage that resolves, which complains about nothing
              simp only [Logged.value_bind, hres] at hnil
              split at hnil <;> exact absurd rfl hnil
          · rw [if_neg hempty]
            rfl

/-- **The two ways in which a stage ends.** -/
theorem resolveStage_cases (settings : Settings) (r : Registry) (failed : List Nat) (site : Site) :
    (∃ a b c formats, Resolves settings r site a b c formats) ∨
      ∃ causes, (resolveStage settings r failed site).value =
          ⟨(claimOutput r site).1, causes, none⟩ ∧
        (causes ≠ [] ∨ ∃ n ∈ site.spec.sources, Waits r failed n) := by
  have hsearch : ∀ {α β : Type} {x : Except (List Cause) α} {y : Except (List Cause) β}
      (early late : List Cause), searchCauses x ≠ [] ∨ searchCauses y ≠ [] →
      early ++ searchCauses x ++ searchCauses y ++ late ≠ [] := by
    intro α β x y early late hne hnil
    simp only [List.append_eq_nil_iff] at hnil
    obtain ⟨⟨⟨-, hx⟩, hy⟩, -⟩ := hnil
    exact hne.elim (· hx) (· hy)
  unfold resolveStage
  cases ha : findSource r failed site.spec.loader.sourceA with
  | error cs =>
    refine .inr ⟨_, rfl, ?_⟩
    obtain hne | hwait := waits_of_findSource ha
    · exact .inl (hsearch _ _ (.inl hne))
    · exact .inr ⟨_, List.mem_cons_self .., hwait⟩
  | ok a =>
    cases hb : findSecond r failed site.spec.loader.sourceB with
    | error cs =>
      refine .inr ⟨_, rfl, ?_⟩
      obtain hne | ⟨n, hn, hwait⟩ := waits_of_findSecond hb
      · exact .inl (hsearch _ _ (.inr hne))
      · exact .inr ⟨n, List.mem_cons_of_mem _ hn, hwait⟩
    | ok b =>
      obtain hnil | ⟨causes, hne, hfail⟩ := resolveWith_cases settings r site
        (descriptionCauses settings.platform site) a b
      · obtain ⟨hearly, hshape, hvac, formats, hplan, hcap, c, hc, hfit⟩ :=
          resolves_of_resolveWith hnil
        exact .inl ⟨a, b, c, formats, hearly, findSource_eq_ok_iff.mp ha,
          findSecond_eq_ok_iff.mp hb, hshape, hvac, hplan, hcap, hc, hfit⟩
      · exact .inr ⟨causes, hfail, .inl hne⟩

/-! ## What a stage leaves alone -/

/-- Claiming an output leaves the registry as it is, adds the output, or gives the output that was
declared for the stage its role. -/
theorem claimOutput_cases (r : Registry) (site : Site) :
    (claimOutput r site).1 = r ∨
      (r.find? site.spec.output = none ∧ (claimOutput r site).1 =
        r.push (r.fresh site.spec.output site.outputRole (some site.index) none)) ∨
      ∃ o, r.find? site.spec.output = some o ∧ o.isResolved = false ∧
        (∀ j, o.producer = some j → j = site.index) ∧
        (claimOutput r site).1 = r.modify o.id fun _ => { o with role := site.outputRole } := by
  unfold claimOutput
  cases hf : r.find? site.spec.output with
  | none => exact .inr (.inl ⟨rfl, by simp only [hf]⟩)
  | some o =>
    simp only [hf]
    by_cases htaken : (o.role == .input || o.isResolved) = true
    · exact .inl (by rw [if_pos htaken])
    · rw [if_neg htaken]
      have hpend : o.isResolved = false := by
        cases hres : o.isResolved with
        | false => rfl
        | true => simp [hres] at htaken
      cases hp : o.producer with
      | none => exact .inr (.inr ⟨o, rfl, hpend, by simp [hp], by simp only [hp]⟩)
      | some j =>
        by_cases hj : j = site.index
        · refine .inr (.inr ⟨o, rfl, hpend, ?_, by simp [hp, hj]⟩)
          intro i hi
          rw [hp] at hi
          exact (Option.some.inj hi).symm.trans hj
        · exact .inl (by simp [hj])

theorem Site.outputRole_ne_input (site : Site) : site.outputRole ≠ .input := by
  unfold Site.outputRole
  split <;> simp

theorem wellFormed_claimOutput {r : Registry} (hr : r.WellFormed) (site : Site) :
    (claimOutput r site).1.WellFormed := by
  obtain h | ⟨hf, h⟩ | ⟨o, hf, -, -, h⟩ := claimOutput_cases r site <;> rw [h]
  · exact hr
  · exact Registry.wellFormed_push hr rfl hf
      (Registry.sound_fresh_output _ _ _ _ _ site.outputRole_ne_input)
  · have hs := hr.sound o (Registry.mem_of_find? hf)
    exact Registry.wellFormed_modify hr (Registry.mem_of_find? hf) rfl rfl
      ⟨hs.contents_eq, hs.fits, hs.unassigned, fun h => absurd h site.outputRole_ne_input,
        hs.producer_of_pending⟩

/-- Only pending operands are touched when an output is claimed. -/
theorem find?_claimOutput {r : Registry} (hr : r.WellFormed) (site : Site) {name : String}
    {o : Operand} (ho : (claimOutput r site).1.find? name = some o) (hres : o.isResolved = true) :
    r.find? name = some o := by
  obtain h | ⟨hf, h⟩ | ⟨x, hf, hpend, -, h⟩ := claimOutput_cases r site <;> rw [h] at ho
  · exact ho
  · rw [Registry.find?_push_of_none hf] at ho
    split at ho
    next =>
      rw [← Option.some.inj ho] at hres
      simp [Registry.fresh, Operand.isResolved] at hres
    next => exact ho
  · have hname : ({ x with role := site.outputRole } : Operand).name = x.name := rfl
    rw [Registry.find?_modify hr (Registry.mem_of_find? hf) hname] at ho
    split at ho
    next =>
      rw [← Option.some.inj ho] at hres
      exact absurd hres (by simpa [Operand.isResolved] using hpend)
    next => exact ho

/-- A stage does not touch what was declared for another one. -/
theorem find?_claimOutput_of_producer {r : Registry} (hr : r.WellFormed) {site : Site}
    {name : String} {o : Operand} {j : Nat} (ho : r.find? name = some o)
    (hj : o.producer = some j) (hne : j ≠ site.index) :
    (claimOutput r site).1.find? name = some o := by
  obtain h | ⟨hf, h⟩ | ⟨x, hf, -, hown, h⟩ := claimOutput_cases r site <;> rw [h]
  · exact ho
  · rw [Registry.find?_push_of_none hf, if_neg]
    · exact ho
    · intro hn
      rw [hn, Registry.fresh, hf] at ho
      simp at ho
  · have hname : ({ x with role := site.outputRole } : Operand).name = x.name := rfl
    rw [Registry.find?_modify hr (Registry.mem_of_find? hf) hname, if_neg]
    · exact ho
    · intro hn
      rw [hn, Registry.name_of_find? hf, hf] at ho
      rw [← Option.some.inj ho] at hj
      exact hne (hown j hj)

/-- The output of a resolved stage is its own. -/
theorem producer_settledOutput {r : Registry} {site : Site} {c : Contents} {j : Nat}
    (hvac : Vacant r site) (hj : (r.settledOutput site c).producer = some j) : j = site.index := by
  unfold Registry.settledOutput at hj
  split at hj
  next => exact (Option.some.inj hj).symm
  next x hx => exact (hvac x hx).2.2 j hj

theorem find?_settle_of_producer {r : Registry} (hr : r.WellFormed) {site : Site} {c : Contents}
    (hvac : Vacant r site) {name : String} {o : Operand} {j : Nat} (ho : r.find? name = some o)
    (hj : o.producer = some j) (hne : j ≠ site.index) :
    (r.settle site c).find? name = some o := by
  rw [Registry.find?_settle hr, if_neg]
  · exact ho
  · intro hn
    rw [hn] at ho
    exact hne ((hvac o ho).2.2 j hj)

namespace BuildState

/-! ## One step of a build -/

/-- The two ways in which a build goes on: with one more stage, or with one more failure, which has
a cause or waits for an earlier one. -/
theorem step_cases (settings : Settings) (state : BuildState) (site : Site) :
    (∃ a b c formats, Resolves settings state.registry site a b c formats ∧
      (state.step settings site).value =
        ⟨state.registry.settle site c, state.errors, state.failed,
          state.stages ++ [stageOf settings state.registry site a b c formats]⟩) ∨
      ∃ causes, (state.step settings site).value =
          ⟨(claimOutput state.registry site).1,
            state.errors ++ causes.map fun cause => ⟨site.index, cause⟩,
            state.failed ++ [site.index], state.stages⟩ ∧
        (causes ≠ [] ∨ ∃ n ∈ site.spec.sources, Waits state.registry state.failed n) := by
  obtain ⟨a, b, c, formats, hres⟩ | ⟨causes, hfail, hwhy⟩ :=
    resolveStage_cases settings state.registry state.failed site
  · exact .inl ⟨a, b, c, formats, hres, step_of_resolves hres⟩
  · refine .inr ⟨causes, ?_, hwhy⟩
    unfold step
    simp only [Logged.value_bind, hfail, Logged.value_pure]

theorem wellFormed_step (settings : Settings) {state : BuildState} (h : state.registry.WellFormed)
    (site : Site) : (state.step settings site).value.registry.WellFormed := by
  obtain ⟨a, b, c, formats, hres, hstep⟩ | ⟨causes, hstep, -⟩ := state.step_cases settings site
  · rw [hstep]
    exact hres.wellFormed h
  · rw [hstep]
    exact wellFormed_claimOutput h site

/-- What was declared for another stage is still there behind this one. -/
theorem find?_step_of_producer {settings : Settings} {state : BuildState}
    (h : state.registry.WellFormed) {site : Site} {name : String} {o : Operand} {j : Nat}
    (ho : state.registry.find? name = some o) (hj : o.producer = some j) (hne : j ≠ site.index) :
    (state.step settings site).value.registry.find? name = some o := by
  obtain ⟨a, b, c, formats, hres, hstep⟩ | ⟨causes, hstep, -⟩ := state.step_cases settings site
  · rw [hstep]
    exact find?_settle_of_producer h hres.vacant ho hj hne
  · rw [hstep]
    exact find?_claimOutput_of_producer h ho hj hne

/-! ## Missing stages are explained -/

/-- No stage of this number was resolved. -/
def Unresolved (state : BuildState) (i : Nat) : Prop :=
  ∀ s ∈ state.stages, s.index ≠ i

/-- Why stage `i` is missing: there is an error about it, or it reads a pending operand that was
declared for an earlier stage, which is missing too. -/
def Explains (state : BuildState) (i : Nat) (spec : StageSpec) : Prop :=
  (∃ e ∈ state.errors, e.stage = i) ∨
    ∃ n ∈ spec.sources, ∃ o j, state.registry.find? n = some o ∧ o.isResolved = false ∧
      o.producer = some j ∧ j < i ∧ state.Unresolved j

/-- The state of a build behind the stages `done`. -/
structure Accounts (done : List Site) (state : BuildState) : Prop where
  wellFormed : state.registry.WellFormed
  /-- Every stage is there, or has failed for a reason. -/
  explained : ∀ site ∈ done, (∃ s ∈ state.stages, s.index = site.index) ∨
    state.Explains site.index site.spec
  /-- Only stages of `done` have failed, and those are missing. -/
  failed : ∀ j ∈ state.failed, (∃ site ∈ done, site.index = j) ∧ state.Unresolved j
  /-- Only stages of `done` are there. -/
  stages : ∀ s ∈ state.stages, ∃ site ∈ done, site.index = s.index
  /-- Only stages of `done` have written. -/
  written : ∀ name o j, state.registry.find? name = some o → o.isResolved = true →
    o.producer = some j → ∃ site ∈ done, site.index = j

/-- An explanation stays good behind later stages. -/
theorem Explains.step {settings : Settings} {state : BuildState} {i : Nat} {spec : StageSpec}
    (h : state.Explains i spec) (hr : state.registry.WellFormed) {site : Site}
    (hlt : i ≤ site.index) : (state.step settings site).value.Explains i spec := by
  obtain ⟨e, he, hstage⟩ | ⟨n, hn, o, j, ho, hpend, hj, hji, hun⟩ := h
  · exact .inl ⟨e, (prefix_errors_step settings state site).mem he, hstage⟩
  · have hne : j ≠ site.index := by omega
    refine .inr ⟨n, hn, o, j, find?_step_of_producer hr ho hj hne, hpend, hj, hji, ?_⟩
    obtain ⟨a, b, c, formats, hres, hstep⟩ | ⟨causes, hstep, -⟩ := state.step_cases settings site
    · rw [hstep]
      intro s hs
      rcases List.mem_append.mp hs with hs | hs
      · exact hun s hs
      · rw [List.mem_singleton.mp hs]
        exact hne.symm
    · rw [hstep]
      exact hun

section Step

variable {settings : Settings} {done : List Site} {state : BuildState} {site : Site}

theorem exists_index_append {j : Nat} (h : ∃ x ∈ done, x.index = j) (site : Site) :
    ∃ x ∈ done ++ [site], x.index = j := by
  obtain ⟨x, hx, hxj⟩ := h
  exact ⟨x, List.mem_append_left _ hx, hxj⟩

theorem exists_index_self (done : List Site) (site : Site) :
    ∃ x ∈ done ++ [site], x.index = site.index :=
  ⟨site, by simp, rfl⟩

/-- A stage that is resolved is accounted for by itself. -/
theorem Accounts.resolved (h : Accounts done state) (hlt : ∀ x ∈ done, x.index < site.index)
    {a : Operand} {b : Option Operand} {c : Contents} {formats : FormatPlan}
    (hres : Resolves settings state.registry site a b c formats) :
    Accounts (done ++ [site]) (state.step settings site).value := by
  have hwf := wellFormed_step settings h.wellFormed site
  have hstep := step_of_resolves hres
  refine ⟨hwf, ?_, ?_, ?_, ?_⟩
  · intro x hx
    rcases List.mem_append.mp hx with hx | hx
    · obtain ⟨s, hs, hsx⟩ | hex := h.explained x hx
      · rw [hstep]
        exact .inl ⟨s, List.mem_append_left _ hs, hsx⟩
      · exact .inr (hex.step h.wellFormed (Nat.le_of_lt (hlt x hx)))
    · rw [hstep, List.mem_singleton.mp hx]
      exact .inl ⟨_, List.mem_append_right _ (List.mem_singleton.mpr rfl), rfl⟩
  · intro j hj
    rw [hstep] at hj ⊢
    obtain ⟨hdone, hun⟩ := h.failed j hj
    refine ⟨exists_index_append hdone site, ?_⟩
    intro s hs
    rcases List.mem_append.mp hs with hs | hs
    · exact hun s hs
    · -- the new stage has a number of its own
      obtain ⟨x, hx, hxj⟩ := hdone
      have := hlt x hx
      rw [List.mem_singleton.mp hs]
      show site.index ≠ j
      omega
  · intro s hs
    rw [hstep] at hs
    rcases List.mem_append.mp hs with hs | hs
    · exact exists_index_append (h.stages s hs) site
    · rw [List.mem_singleton.mp hs]
      exact exists_index_self done site
  · intro name o j ho hdone hj
    rw [hstep] at ho
    rw [Registry.find?_settle h.wellFormed] at ho
    split at ho
    next =>
      rw [← Option.some.inj ho] at hj
      rw [producer_settledOutput hres.vacant hj]
      exact exists_index_self done site
    next => exact exists_index_append (h.written name o j ho hdone hj) site

/-- A stage that fails is accounted for by its causes, or by the stage that it waits for. -/
theorem Accounts.failing (h : Accounts done state) (hlt : ∀ x ∈ done, x.index < site.index)
    {causes : List Cause} (hstep : (state.step settings site).value =
      ⟨(claimOutput state.registry site).1,
        state.errors ++ causes.map fun cause => ⟨site.index, cause⟩,
        state.failed ++ [site.index], state.stages⟩)
    (hwhy : causes ≠ [] ∨ ∃ n ∈ site.spec.sources, Waits state.registry state.failed n) :
    Accounts (done ++ [site]) (state.step settings site).value := by
  have hwf := wellFormed_step settings h.wellFormed site
  refine ⟨hwf, ?_, ?_, ?_, ?_⟩
  · intro x hx
    rcases List.mem_append.mp hx with hx | hx
    · obtain hs | hex := h.explained x hx
      · rw [hstep]
        exact .inl hs
      · exact .inr (hex.step h.wellFormed (Nat.le_of_lt (hlt x hx)))
    · rw [hstep, List.mem_singleton.mp hx]
      refine .inr ?_
      obtain hne | ⟨n, hn, o, j, ho, hpend, hj, hfailed⟩ := hwhy
      · obtain ⟨cause, hmem⟩ := List.exists_mem_of_ne_nil _ hne
        exact .inl ⟨⟨site.index, cause⟩,
          List.mem_append_right _ (List.mem_map_of_mem hmem), rfl⟩
      · -- the stage waited for has failed before this one
        obtain ⟨⟨y, hy, hyj⟩, hmissing⟩ := h.failed j hfailed
        have hji : j < site.index := hyj ▸ hlt y hy
        exact .inr ⟨n, hn, o, j,
          find?_claimOutput_of_producer h.wellFormed ho hj (Nat.ne_of_lt hji), hpend, hj, hji,
          hmissing⟩
  · intro j hj
    rw [hstep] at hj ⊢
    rcases List.mem_append.mp hj with hj | hj
    · obtain ⟨hdone, hmissing⟩ := h.failed j hj
      exact ⟨exists_index_append hdone site, hmissing⟩
    · rw [List.mem_singleton.mp hj]
      refine ⟨exists_index_self done site, ?_⟩
      intro s hs
      obtain ⟨x, hx, hxs⟩ := h.stages s hs
      have := hlt x hx
      omega
  · intro s hs
    rw [hstep] at hs
    exact exists_index_append (h.stages s hs) site
  · intro name o j ho hdone hj
    rw [hstep] at ho
    exact exists_index_append
      (h.written name o j (find?_claimOutput h.wellFormed site ho hdone) hdone hj) site

/-- **One more stage is accounted for.** -/
theorem Accounts.step (settings : Settings) (h : Accounts done state)
    (hlt : ∀ x ∈ done, x.index < site.index) :
    Accounts (done ++ [site]) (state.step settings site).value := by
  obtain ⟨a, b, c, formats, hres, -⟩ | ⟨causes, hstep, hwhy⟩ := state.step_cases settings site
  · exact h.resolved hlt hres
  · exact h.failing hlt hstep hwhy

end Step

/-- **All stages are accounted for.** -/
theorem Accounts.run {settings : Settings} (sites : List Site) :
    ∀ {done : List Site} {state : BuildState}, Accounts done state →
      (done ++ sites).Pairwise (·.index < ·.index) →
      Accounts (done ++ sites) (state.run settings sites).value := by
  induction sites with
  | nil =>
    intro done state h _
    show Accounts (done ++ []) state
    rw [List.append_nil]
    exact h
  | cons site rest ih =>
    intro done state h hlt
    have hbefore : ∀ x ∈ done, x.index < site.index := fun x hx =>
      (List.pairwise_append.mp hlt).2.2 x hx site (List.mem_cons_self ..)
    have hstep : Accounts (done ++ [site]) (state.step settings site).value :=
      h.step settings hbefore
    have hrun := ih hstep (by rw [List.append_assoc]; exact hlt)
    rw [List.append_assoc] at hrun
    exact hrun

/-- Errors are about the stages that were run, or were there before. -/
theorem stage_of_mem_errors_run {settings : Settings} (sites : List Site) :
    ∀ {state : BuildState} {e : BuildError}, e ∈ (state.run settings sites).value.errors →
      e ∈ state.errors ∨ ∃ site ∈ sites, site.index = e.stage := by
  induction sites with
  | nil =>
    intro state e he
    exact .inl he
  | cons site rest ih =>
    intro state e he
    obtain he | ⟨x, hx, hxe⟩ := ih he
    · obtain ⟨a, b, c, formats, -, hstep⟩ | ⟨causes, hstep, -⟩ := state.step_cases settings site
      · rw [hstep] at he
        exact .inl he
      · rw [hstep] at he
        rcases List.mem_append.mp he with he | he
        · exact .inl he
        · obtain ⟨cause, -, rfl⟩ := List.mem_map.mp he
          exact .inr ⟨site, List.mem_cons_self .., rfl⟩
    · exact .inr ⟨x, List.mem_cons_of_mem _ hx, hxe⟩

end BuildState

/-! ## The whole build -/

/-- The state of a build behind its last stage, before anything is placed. -/
def assemble (r : Registry) (specs : List StageSpec) (settings : Settings) : BuildState :=
  (BuildState.run settings ⟨r, overallErrors settings specs, [], []⟩ (sites specs)).value

theorem build_eq_error_iff {r : Registry} {specs : List StageSpec} {settings : Settings}
    {errors : List BuildError} :
    (Pipeline.build r specs settings).value = .error errors ↔
      ((assemble r specs settings).errors ≠ [] ∧
        errors = sortErrors (assemble r specs settings).errors) ∨
      ((assemble r specs settings).errors = [] ∧
        ∃ e, (assemble r specs settings).registry.allocate.value = .error e ∧
          errors = [placementError (assemble r specs settings).registry e]) := by
  unfold Pipeline.build assemble
  simp only [Logged.value_bind]
  generalize (BuildState.run settings ⟨r, overallErrors settings specs, [], []⟩
    (sites specs)).value = state
  by_cases hnil : state.errors = []
  · simp only [hnil, List.isEmpty_nil, if_true, Logged.value_bind, ne_eq, not_true_eq_false,
      false_and, true_and, false_or]
    cases hplace : state.registry.allocate.value with
    | error e => simp [eq_comm]
    | ok placed => simp
  · have hempty : state.errors.isEmpty = false := by simpa using hnil
    simp only [hempty, Bool.false_eq_true, if_false, Logged.value_pure, Except.error.injEq, hnil,
      ne_eq, not_false_eq_true, true_and, false_and, or_false]
    exact eq_comm

theorem index_lt_of_mem_sites {specs : List StageSpec} {site : Site} (h : site ∈ sites specs) :
    site.index < specs.length := by
  have hmem : site.index ∈ (sites specs).map (·.index) := List.mem_map_of_mem h
  rw [sites, index_sitesFrom, List.mem_range'_1] at hmem
  omega

theorem stage_lt_of_mem_overallErrors {settings : Settings} {specs : List StageSpec}
    {e : BuildError} (h : e ∈ overallErrors settings specs) : e.stage < max 1 specs.length := by
  have hzero : 0 < max 1 specs.length := Nat.lt_of_lt_of_le Nat.zero_lt_one (Nat.le_max_left ..)
  unfold overallErrors at h
  rcases List.mem_append.mp h with h | h
  · rcases List.mem_append.mp h with h | h
    · split at h
      next => rw [List.mem_singleton.mp h]; exact hzero
      next => simp at h
    · split at h
      next => rw [List.mem_singleton.mp h]; exact hzero
      next => simp at h
  · unfold mixingErrors at h
    split at h
    next =>
      obtain ⟨site, hsite, he⟩ := List.mem_filterMap.mp h
      split at he
      next =>
        rw [← Option.some.inj he]
        exact Nat.lt_of_lt_of_le (index_lt_of_mem_sites hsite) (Nat.le_max_right ..)
      next => simp at he
    next => simp at h

theorem pairwise_index_sites (specs : List StageSpec) :
    (sites specs).Pairwise (·.index < ·.index) := by
  rw [← List.pairwise_map, sites, index_sitesFrom]
  exact List.pairwise_lt_range'

/-- What a caller has declared is accounted for before any stage. -/
theorem accounts_start {r : Registry} (hr : r.Declared) (errors : List BuildError) :
    BuildState.Accounts [] ⟨r, errors, [], []⟩ := by
  refine ⟨hr.wellFormed, by simp, by simp, by simp, ?_⟩
  intro name o j ho hres hj
  -- what a caller has settled is an input, which no stage writes
  obtain ⟨-, -, hnone⟩ | ⟨-, hpend, -⟩ := hr.untouched o (Registry.mem_of_find? ho)
  · simp [hnone] at hj
  · simp [hpend] at hres

/-- The stages of a build are accounted for behind the last one. -/
theorem accounts_assemble {r : Registry} (hr : r.Declared) (specs : List StageSpec)
    (settings : Settings) : BuildState.Accounts (sites specs) (assemble r specs settings) :=
  BuildState.Accounts.run (sites specs) (accounts_start hr _) (pairwise_index_sites specs)

/-! ## Failed placement -/

theorem mem_of_firstClash {xs : List Extent} {x y : Extent} (h : firstClash xs = some (x, y)) :
    x ∈ xs ∧ y ∈ xs := by
  induction xs with
  | nil => simp [firstClash] at h
  | cons z rest ih =>
    cases rest with
    | nil => simp [firstClash] at h
    | cons w rest =>
      unfold firstClash at h
      split at h
      next =>
        obtain ⟨rfl, rfl⟩ := Prod.mk.inj (Option.some.inj h)
        simp
      next =>
        obtain ⟨hx, hy⟩ := ih h
        exact ⟨List.mem_cons_of_mem _ hx, List.mem_cons_of_mem _ hy⟩

/-- An extent has the id and the name of a settled operand. -/
theorem Registry.exists_of_mem_extents {r : Registry} {x : Extent} (h : x ∈ r.extents) :
    ∃ o ∈ r.operands, o.isResolved = true ∧ x.owner = o.id ∧ x.name = o.name := by
  rw [Registry.extents, List.mem_mergeSort, List.mem_filterMap] at h
  obtain ⟨o, ho, hext⟩ := h
  simp only [Operand.extent?, Option.bind_eq_bind, Option.bind_eq_some_iff] at hext
  obtain ⟨c, hc, a, -, hx⟩ := hext
  rw [← Option.some.inj hx]
  exact ⟨o, ho, Operand.isResolved_iff.mpr ⟨c, hc⟩, rfl, rfl⟩

theorem exists_of_placeFloating_error {os : List Operand} :
    ∀ {taken : List Extent} {e : RegistryError}, (placeFloating taken os).value = .error e →
      ∃ o ∈ os, o.isResolved = true ∧ e.name = o.name := by
  have hmap : ∀ {x : Except RegistryError (List Operand)} {f : List Operand → List Operand}
      {e : RegistryError}, x.map f = .error e → x = .error e := by
    intro x f e h
    cases x with
    | error e' => exact congrArg _ (Except.error.inj h)
    | ok ps => simp [Except.map] at h
  induction os with
  | nil => simp [placeFloating]
  | cons o rest ih =>
    intro taken e h
    have hrest : (∃ x ∈ rest, x.isResolved = true ∧ e.name = x.name) →
        ∃ x ∈ o :: rest, x.isResolved = true ∧ e.name = x.name := by
      intro hx
      obtain ⟨x, hx, hres⟩ := hx
      exact ⟨x, List.mem_cons_of_mem _ hx, hres⟩
    by_cases hkeep : o.location ≠ .floating ∨ o.contents = none
    · rw [placeFloating_of_keep hkeep] at h
      exact hrest (ih (hmap h))
    · obtain ⟨hloc, hc⟩ := not_or.mp hkeep
      obtain ⟨c, hc⟩ := Option.ne_none_iff_exists'.mp hc
      have hloc := not_not.mp hloc
      cases ha : firstFit c.size baseAddress taken with
      | none =>
        rw [placeFloating_of_none hloc hc ha] at h
        obtain rfl := Except.error.inj h
        exact ⟨o, List.mem_cons_self .., Operand.isResolved_iff.mpr ⟨c, hc⟩, rfl⟩
      | some a =>
        rw [placeFloating_of_place hloc hc ha] at h
        exact hrest (ih (hmap h))

/-- A failed placement names a settled operand. -/
theorem Registry.exists_of_allocate_error {r : Registry} {e : RegistryError}
    (h : r.allocate.value = .error e) :
    ∃ o ∈ r.operands, o.isResolved = true ∧ e.name = o.name := by
  unfold Registry.allocate at h
  split at h
  next x y hclash =>
    obtain rfl := Except.error.inj h
    obtain ⟨o, ho, hres, -, hname⟩ := exists_of_mem_extents (mem_of_firstClash hclash).2
    exact ⟨o, ho, hres, hname⟩
  next =>
    cases hp : (placeFloating r.extents r.operands).value with
    | error e' =>
      have he : e' = e := by simpa [hp, Except.map] using h
      exact exists_of_placeFloating_error (he ▸ hp)
    | ok ps => simp [hp, Except.map] at h

theorem stage_placementError_lt {r : Registry} {specs : List StageSpec} (hr : r.WellFormed)
    (hwritten : ∀ name o j, r.find? name = some o → o.isResolved = true → o.producer = some j →
      ∃ site ∈ sites specs, site.index = j)
    {e : RegistryError} (h : r.allocate.value = .error e) :
    (placementError r e).stage < max 1 specs.length := by
  obtain ⟨o, ho, hres, hname⟩ := Registry.exists_of_allocate_error h
  have hf : r.find? e.name = some o := by
    rw [hname]
    exact hr.find?_name ho
  unfold placementError
  rw [hf, Option.bind_some]
  cases hj : o.producer with
  | none => exact Nat.lt_of_lt_of_le Nat.zero_lt_one (Nat.le_max_left ..)
  | some j =>
    obtain ⟨site, hsite, rfl⟩ := hwritten e.name o j hf hres hj
    exact Nat.lt_of_lt_of_le (index_lt_of_mem_sites hsite) (Nat.le_max_right ..)

/-! ## The report -/

theorem ResolvesAll.spec_eq {settings : Settings} {r final : Registry} {sites : List Site}
    {stages : List Stage} (h : ResolvesAll settings r sites stages final) :
    stages.map (·.spec) = sites.map (·.spec) := by
  induction h with
  | nil => rfl
  | cons _ _ ih =>
    rw [List.map_cons, List.map_cons, ih]
    rfl

theorem mem_sortErrors {errors : List BuildError} {e : BuildError} :
    e ∈ sortErrors errors ↔ e ∈ errors :=
  List.mem_mergeSort

theorem stageOrder_trans (x y z : BuildError) (hxy : decide (x.stage ≤ y.stage) = true)
    (hyz : decide (y.stage ≤ z.stage) = true) : decide (x.stage ≤ z.stage) = true := by
  simp only [decide_eq_true_eq] at *
  omega

theorem stageOrder_total (x y : BuildError) :
    (decide (x.stage ≤ y.stage) || decide (y.stage ≤ x.stage)) = true := by
  simp only [Bool.or_eq_true, decide_eq_true_eq]
  omega

theorem pairwise_sortErrors (errors : List BuildError) :
    (sortErrors errors).Pairwise (·.stage ≤ ·.stage) :=
  (List.pairwise_mergeSort stageOrder_trans stageOrder_total errors).imp fun hxy => by
    simpa using hxy

theorem exists_site {specs : List StageSpec} {i : Nat} {s : StageSpec} (h : specs[i]? = some s) :
    ∃ site ∈ sites specs, site.index = i ∧ site.spec = s := by
  have hi := (List.getElem?_eq_some_iff.mp h).1
  have hspec : ((sites specs).map (·.spec))[i]? = some s := by
    rw [sites, map_spec_sites]
    exact h
  have hindex : ((sites specs).map (·.index))[i]? = some i := by
    rw [sites, index_sitesFrom, List.getElem?_range' hi]
    simp
  rw [List.getElem?_map] at hspec hindex
  cases hsite : (sites specs)[i]? with
  | none => simp [hsite] at hspec
  | some site =>
    rw [hsite] at hspec hindex
    exact ⟨site, List.mem_of_getElem? hsite, Option.some.inj hindex, Option.some.inj hspec⟩

section Report

variable {r : Registry} {specs : List StageSpec} {settings : Settings}

/-- The stages of a pipeline are the ones that were asked for. -/
theorem spec_stages_of_build {p : Pipeline} (hp : (Pipeline.build r specs settings).value = .ok p) :
    p.stages.map (·.spec) = specs ∧ p.stages.map (·.index) = List.range' 0 specs.length := by
  obtain ⟨-, stages, final, placed, hall, -, rfl⟩ := build_eq_ok_iff.mp hp
  have hspec := hall.spec_eq
  have hindex := hall.index_eq
  rw [sites, map_spec_sites] at hspec
  rw [sites, index_sitesFrom] at hindex
  exact ⟨hspec, hindex⟩

/-- A run without errors misses no stage. -/
theorem not_unresolved_of_errors_nil (hnil : (assemble r specs settings).errors = [])
    {i : Nat} (hi : i < specs.length) : ¬(assemble r specs settings).Unresolved i := by
  obtain ⟨stages, final, hall⟩ := BuildState.resolvesAll_of_errors_nil
    ⟨r, overallErrors settings specs, [], []⟩ rfl hnil
  have hstages : (assemble r specs settings).stages = stages := by
    unfold assemble
    rw [BuildState.run_of_resolvesAll hall _ rfl]
    rfl
  have hmem : i ∈ stages.map (·.index) := by
    rw [hall.index_eq, sites, index_sitesFrom, List.mem_range'_1]
    omega
  obtain ⟨s, hs, hsi⟩ := List.mem_map.mp hmem
  intro hun
  exact hun s (hstages ▸ hs) hsi

/-- **No stage is lost, and every failure has a cause that is reported.** -/
theorem build_accounts_for_stages (hr : r.Declared) :
    (∀ p, (Pipeline.build r specs settings).value = .ok p →
      p.stages.length = specs.length ∧
      (∀ (i : Nat) (s : Stage), p.stages[i]? = some s → s.index = i ∧ specs[i]? = some s.spec) ∧
      (Pipeline.build r (p.stages.map (·.spec)) settings).value = .ok p) ∧
    (∀ errors, (Pipeline.build r specs settings).value = .error errors →
      errors ≠ [] ∧ errors.Pairwise (·.stage ≤ ·.stage) ∧
      (∀ e ∈ errors, e.stage < max 1 specs.length) ∧
      ∀ (i : Nat) (s : StageSpec), specs[i]? = some s →
        (assemble r specs settings).Unresolved i →
        (∃ e ∈ errors, e.stage = i) ∨
          ∃ n ∈ s.sources, ∃ o j, (assemble r specs settings).registry.find? n = some o ∧
            o.isResolved = false ∧ o.producer = some j ∧ j < i ∧
            (assemble r specs settings).Unresolved j) := by
  have hacc := accounts_assemble hr specs settings
  refine ⟨?_, ?_⟩
  · intro p hp
    obtain ⟨hspec, hindex⟩ := spec_stages_of_build hp
    refine ⟨by simpa using congrArg List.length hspec, ?_, by rw [hspec]; exact hp⟩
    intro i s hs
    have hi := congrArg (·[i]?) hspec
    have hx := congrArg (·[i]?) hindex
    simp only [List.getElem?_map, hs, Option.map_some] at hi hx
    have hlt := (List.getElem?_eq_some_iff.mp hi.symm).1
    rw [List.getElem?_range' hlt] at hx
    exact ⟨by simpa using hx, hi.symm⟩
  · intro errors herr
    obtain ⟨hne, rfl⟩ | ⟨hnil, e, halloc, rfl⟩ := build_eq_error_iff.mp herr
    · refine ⟨?_, pairwise_sortErrors _, ?_, ?_⟩
      · intro hsorted
        obtain ⟨e, he⟩ := List.exists_mem_of_ne_nil _ hne
        have := mem_sortErrors.mpr he
        rw [hsorted] at this
        simp at this
      · intro e he
        obtain he | ⟨site, hsite, hstage⟩ :=
          BuildState.stage_of_mem_errors_run _ (mem_sortErrors.mp he)
        · exact stage_lt_of_mem_overallErrors he
        · rw [← hstage]
          exact Nat.lt_of_lt_of_le (index_lt_of_mem_sites hsite) (Nat.le_max_right ..)
      · intro i s hs hun
        obtain ⟨site, hsite, rfl, rfl⟩ := exists_site hs
        obtain ⟨t, ht, hti⟩ | hex := hacc.explained site hsite
        · exact absurd hti (hun t ht)
        · obtain ⟨e, he, hstage⟩ | hwait := hex
          · exact .inl ⟨e, mem_sortErrors.mpr he, hstage⟩
          · exact .inr hwait
    · refine ⟨by simp, by simp, ?_, ?_⟩
      · intro e' he'
        rw [List.mem_singleton.mp he']
        exact stage_placementError_lt hacc.wellFormed hacc.written halloc
      · -- placement is only tried when every stage has been resolved
        intro i s hs hun
        exact absurd hun (not_unresolved_of_errors_nil hnil (List.getElem?_eq_some_iff.mp hs).1)

end Report

/-- The fused stages, when the first one reads an operand that nobody has declared. -/
def orphanedSpecs : List StageSpec :=
  fusedSpecs.modifyHead fun s => { s with loader := { s.loader with sourceB := some "missing" } }

/-- Both stages are missing and only the first one is blamed: the second one waits for it. -/
theorem build_accounts_for_stages_orphaned :
    (Pipeline.build crowdedRegistry orphanedSpecs fusedSettings).value =
        .error [⟨0, .unknownOperand "missing"⟩] ∧
      ∃ n ∈ ["a", "sum"], ∃ o j,
        (assemble crowdedRegistry orphanedSpecs fusedSettings).registry.find? n = some o ∧
          o.isResolved = false ∧ o.producer = some j ∧ j < 1 ∧
          (assemble crowdedRegistry orphanedSpecs fusedSettings).Unresolved j := by
  have herr : (Pipeline.build crowdedRegistry orphanedSpecs fusedSettings).value =
      .error [⟨0, .unknownOperand "missing"⟩] := by
    decide +kernel
  have hun : (assemble crowdedRegistry orphanedSpecs fusedSettings).Unresolved 1 := by
    have hnone : (assemble crowdedRegistry orphanedSpecs fusedSettings).stages = [] := by
      decide +kernel
    simp [BuildState.Unresolved, hnone]
  refine ⟨herr, ?_⟩
  obtain ⟨e, he, hstage⟩ | hwait :=
    ((build_accounts_for_stages declared_crowdedRegistry).2 _ herr).2.2.2 1 _ rfl hun
  · rw [List.mem_singleton.mp he] at hstage
    simp at hstage
  · exact hwait

end TileFusion
