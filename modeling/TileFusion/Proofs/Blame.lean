import TileFusion.Proofs.StageErrors

/-!
# Who is blamed

When a stage fails, the stages that read its output cannot be resolved either, and so on along the
chain. A report that blamed them as well would hide the one cause among its consequences. This file
says that they are not blamed, and that what is reported about a stage is never a consequence of
what stands behind it.

> `build_blames_causes`: a stage whose only trouble is that sources of it were to be written by
> failed stages has no error in the report, and the report on a stage is the same for all
> pipelines that begin alike.

A stage that fails is put among the failed ones and leaves its output pending under its own number,
and a pending operand stays so (`Pending`). Hence a source that was to be written by a failed stage
is one for which the search is silent (`waits_of_awaited`), through any number of stages.
-/

namespace TileFusion

/-! ## What other stages leave alone -/

/-- Claiming an output does not touch other names. -/
theorem find?_claimOutput_of_ne {r : Registry} (hr : r.WellFormed) {site : Site} {name : String}
    (hne : name ≠ site.spec.output) : (claimOutput r site).1.find? name = r.find? name := by
  obtain h | ⟨hf, h⟩ | ⟨o, hf, -, -, h⟩ := claimOutput_cases r site <;> rw [h]
  · rw [Registry.find?_push_of_none hf]
    exact if_neg hne
  · have hname : ({ o with role := site.outputRole } : Operand).name = o.name := rfl
    rw [Registry.find?_modify hr (Registry.mem_of_find? hf) hname, Registry.name_of_find? hf]
    exact if_neg hne

namespace BuildState

variable {settings : Settings} {state : BuildState} {site : Site}

theorem find?_step_of_ne (h : state.registry.WellFormed) {name : String}
    (hne : name ≠ site.spec.output) :
    (state.step settings site).value.registry.find? name = state.registry.find? name := by
  obtain ⟨a, b, c, formats, -, hstep⟩ | ⟨causes, hstep, -⟩ := state.step_cases settings site
  · rw [hstep, Registry.find?_settle h]
    exact if_neg hne
  · rw [hstep]
    exact find?_claimOutput_of_ne h hne

/-- A name that is no output of the stages is not touched by them. -/
theorem find?_run_of_ne {name : String} (sites : List Site) :
    ∀ {state : BuildState}, state.registry.WellFormed →
      (∀ site ∈ sites, name ≠ site.spec.output) →
      (state.run settings sites).value.registry.find? name = state.registry.find? name := by
  induction sites with
  | nil => exact fun _ _ => rfl
  | cons site sites ih =>
    intro state h hne
    rw [run, Logged.value_bind, ih (wellFormed_step settings h site) fun x hx =>
      hne x (List.mem_cons_of_mem _ hx)]
    exact find?_step_of_ne h (hne site (List.mem_cons_self ..))

/-! ## Outputs of failed stages -/

/-- What failed stages were to write is not settled. -/
def Pending (state : BuildState) : Prop :=
  ∀ name o j, state.registry.find? name = some o → o.producer = some j → j ∈ state.failed →
    o.isResolved = false

/-- One more stage leaves them pending: one that resolves has a number of its own, and one that
fails has settled nothing. -/
theorem Pending.step {done : List Site} (hp : state.Pending) (h : Accounts done state)
    (hlt : ∀ x ∈ done, x.index < site.index) : (state.step settings site).value.Pending := by
  intro name o j ho hj hfailed
  obtain ⟨a, b, c, formats, hres, hstep⟩ | ⟨causes, hstep, -⟩ := state.step_cases settings site
  · rw [hstep] at ho hfailed
    rw [Registry.find?_settle h.wellFormed] at ho
    split at ho
    next =>
      rw [← Option.some.inj ho] at hj
      obtain rfl := producer_settledOutput hres.vacant hj
      obtain ⟨⟨x, hx, hxj⟩, -⟩ := h.failed _ hfailed
      exact absurd hxj (Nat.ne_of_lt (hlt x hx))
    next => exact hp name o j ho hj hfailed
  · rw [hstep] at ho hfailed
    by_contra hres
    rw [Bool.not_eq_false] at hres
    have hold := find?_claimOutput h.wellFormed site ho hres
    rcases List.mem_append.mp hfailed with hfailed | hfailed
    · rw [hp name o j hold hj hfailed] at hres
      simp at hres
    · obtain ⟨x, hx, hxj⟩ := h.written name o j hold hres hj
      rw [List.mem_singleton.mp hfailed] at hxj
      exact absurd hxj (Nat.ne_of_lt (hlt x hx))

/-- The whole run. -/
theorem Pending.run (sites : List Site) :
    ∀ {done : List Site} {state : BuildState}, state.Pending → Accounts done state →
      (done ++ sites).Pairwise (·.index < ·.index) → (state.run settings sites).value.Pending := by
  induction sites with
  | nil => exact fun hp _ _ => hp
  | cons site rest ih =>
    intro done state hp h hlt
    have hbefore : ∀ x ∈ done, x.index < site.index := fun x hx =>
      (List.pairwise_append.mp hlt).2.2 x hx site (List.mem_cons_self ..)
    refine ih (hp.step h hbefore) (h.step settings hbefore) ?_
    rw [List.append_assoc]
    exact hlt

/-- The operand of a name was to be written by a stage that has failed. -/
def Awaited (state : BuildState) (name : String) : Prop :=
  ∃ o j, state.registry.find? name = some o ∧ o.producer = some j ∧ j ∈ state.failed

theorem Pending.waits_of_awaited (hp : state.Pending) {name : String} (h : state.Awaited name) :
    Waits state.registry state.failed name := by
  obtain ⟨o, j, ho, hj, hfailed⟩ := h
  exact ⟨o, j, ho, hp name o j ho hj hfailed, hj, hfailed⟩

end BuildState

/-! ## A stage that only waits -/

/-- The search for an operand that waits for a failed stage is silent. -/
theorem findSource_of_waits {r : Registry} {failed : List Nat} {name : String}
    (h : Waits r failed name) : findSource r failed name = .error [] := by
  obtain ⟨o, j, ho, hpend, hj, hfailed⟩ := h
  simp [findSource, ho, hpend, hj, hfailed]

theorem findSource_silent {r : Registry} {failed : List Nat} {name : String}
    (h : (∃ o, Settled r name o) ∨ Waits r failed name) :
    searchCauses (findSource r failed name) = [] := by
  obtain ⟨o, ho⟩ | hwait := h
  · rw [findSource_eq_ok_iff.mpr ho]
    rfl
  · rw [findSource_of_waits hwait]
    rfl

theorem findSecond_silent {r : Registry} {failed : List Nat} {name : Option String}
    (h : ∀ n ∈ name.toList, (∃ o, Settled r n o) ∨ Waits r failed n) :
    searchCauses (findSecond r failed name) = [] := by
  cases name with
  | none => rfl
  | some name =>
    rw [findSecond, searchCauses_map]
    exact findSource_silent (h name (by simp))

/-- A stage without a fault of its own says nothing about sources that are missing. -/
theorem causes_of_waits {settings : Settings} {r : Registry} {failed : List Nat} {site : Site}
    (hdescribed : descriptionCauses settings.platform site = []) (hvacant : Vacant r site)
    (hsources : ∀ n ∈ site.spec.sources, (∃ o, Settled r n o) ∨ Waits r failed n)
    (hwaits : ∃ n ∈ site.spec.sources, Waits r failed n) :
    (resolveStage settings r failed site).value.causes = [] := by
  have hfirst := findSource_silent (hsources _ (List.mem_cons_self ..))
  have hsecond := findSecond_silent fun n hn => hsources n (List.mem_cons_of_mem _ hn)
  obtain ⟨declared, output, hclaim⟩ := exists_claimOutput_of_vacant hvacant
  -- the second way out is the only one, since one search has failed
  have hmissing : ∀ a b, findSource r failed site.spec.loader.sourceA = .ok a →
      findSecond r failed site.spec.loader.sourceB = .ok b → False := by
    intro a b ha hb
    obtain ⟨n, hn, hwait⟩ := hwaits
    rcases List.mem_cons.mp hn with rfl | hn
    · rw [findSource_of_waits hwait] at ha
      simp at ha
    · rw [Option.mem_toList] at hn
      rw [Option.mem_def.mp hn, findSecond, findSource_of_waits hwait] at hb
      simp [Except.map] at hb
  unfold resolveStage
  simp [hclaim, hdescribed, hfirst, hsecond, causesOf]

/-- The state of a build in front of stage `i`. -/
def assembleBefore (r : Registry) (specs : List StageSpec) (settings : Settings) (i : Nat) :
    BuildState :=
  (BuildState.run settings ⟨r, overallErrors settings specs, [], []⟩ ((sites specs).take i)).value

/-- Stage `i` has no trouble but that stages it reads from have failed. -/
structure OnlyWaits (r : Registry) (specs : List StageSpec) (settings : Settings) (i : Nat)
    (s : StageSpec) : Prop where
  /-- Nothing is wrong with its place in the chain and with its units. -/
  described : descriptionCauses settings.platform (siteAt specs i s) = []
  /-- The caller has not declared its output as an input, or for another stage. -/
  declared : ∀ o ∈ r.operands, o.name = s.output → o.role ≠ .input ∧
    ∀ p, o.producer = some p → p = i
  /-- No other stage has its output. -/
  own : ∀ j t, specs[j]? = some t → t.output = s.output → j = i
  /-- Its sources are settled when it is its turn, or were to be written by failed stages. -/
  sources : ∀ n ∈ s.sources,
    (∃ o, Settled (assembleBefore r specs settings i).registry n o) ∨
      (assembleBefore r specs settings i).Awaited n
  /-- The latter is the case for at least one. -/
  awaits : ∃ n ∈ s.sources, (assembleBefore r specs settings i).Awaited n

section Report

variable {r : Registry} {specs : List StageSpec} {settings : Settings} {i : Nat} {s : StageSpec}

theorem assembleBefore_accounts (hr : r.Declared) (specs : List StageSpec) (settings : Settings)
    (i : Nat) :
    BuildState.Accounts ((sites specs).take i) (assembleBefore r specs settings i) ∧
      (assembleBefore r specs settings i).Pending := by
  have hinc : ([] ++ (sites specs).take i).Pairwise (fun x y : Site => x.index < y.index) :=
    (pairwise_index_sites specs).sublist (List.take_sublist ..)
  have hstart := accounts_start hr (overallErrors settings specs)
  exact ⟨hstart.run _ hinc, BuildState.Pending.run _ (by simp [BuildState.Pending]) hstart hinc⟩

/-- The output of a stage that only waits can be claimed. -/
theorem OnlyWaits.vacant (h : OnlyWaits r specs settings i s) (hr : r.Declared) :
    Vacant (assembleBefore r specs settings i).registry (siteAt specs i s) := by
  intro o ho
  have hothers : ∀ site ∈ (sites specs).take i, s.output ≠ site.spec.output := by
    intro site hsite heq
    obtain ⟨k, hk⟩ := List.mem_iff_getElem?.mp hsite
    rw [List.getElem?_take] at hk
    split at hk
    next hlt =>
      rw [sites, getElem?_sitesFrom, Option.map_eq_some_iff] at hk
      obtain ⟨t, ht, rfl⟩ := hk
      have := h.own k t ht heq.symm
      omega
    next => simp at hk
  have hfound : (assembleBefore r specs settings i).registry.find? s.output = r.find? s.output :=
    BuildState.find?_run_of_ne _ hr.wellFormed hothers
  have ho : r.find? s.output = some o := hfound ▸ ho
  obtain ⟨hrole, hown⟩ := h.declared o (Registry.mem_of_find? ho) (Registry.name_of_find? ho)
  obtain ⟨hinput, -⟩ | ⟨-, hpend, -⟩ := hr.untouched o (Registry.mem_of_find? ho)
  · exact absurd hinput hrole
  · exact ⟨hrole, hpend, hown⟩

/-- It adds nothing to the errors. -/
theorem OnlyWaits.causes_eq_nil (h : OnlyWaits r specs settings i s) (hr : r.Declared) :
    (resolveStage settings (assembleBefore r specs settings i).registry
      (assembleBefore r specs settings i).failed (siteAt specs i s)).value.causes = [] := by
  have hp := (assembleBefore_accounts hr specs settings i).2
  refine causes_of_waits h.described (h.vacant hr) ?_ ?_
  · intro n hn
    exact (h.sources n hn).imp_right hp.waits_of_awaited
  · obtain ⟨n, hn, hawaited⟩ := h.awaits
    exact ⟨n, hn, hp.waits_of_awaited hawaited⟩

/-- Stages have failed in front of it, so it is not the first one. -/
theorem OnlyWaits.failed_ne_nil (h : OnlyWaits r specs settings i s) :
    (assembleBefore r specs settings i).failed ≠ [] := by
  obtain ⟨n, -, o, j, -, -, hfailed⟩ := h.awaits
  exact List.ne_nil_of_mem hfailed

theorem OnlyWaits.pos (h : OnlyWaits r specs settings i s) : 0 < i := by
  rcases Nat.eq_zero_or_pos i with rfl | hpos
  · exact absurd rfl h.failed_ne_nil
  · exact hpos

/-- It reuses the accumulator, and only one loader can do that. -/
theorem OnlyWaits.kind_eq (h : OnlyWaits r specs settings i s) (hs : specs[i]? = some s) :
    s.loader.kind = .direct := by
  obtain ⟨hchained, hunits⟩ := (descriptionCauses_eq_nil_iff _ _).mp h.described
  obtain ⟨j, rfl⟩ := Nat.exists_eq_succ_of_ne_zero (Nat.pos_iff_ne_zero.mp h.pos)
  have hj : j < specs.length := Nat.lt_of_succ_lt (List.getElem?_eq_some_iff.mp hs).1
  have hprevious : (siteAt specs (j + 1) s).previous = some specs[j] :=
    List.getElem?_eq_getElem hj
  rw [hprevious] at hchained
  exact (hunits.reuse hchained.1).1

/-- Nothing that is wrong with the pipeline as a whole is put down to it. -/
theorem OnlyWaits.stage_ne_of_overall (h : OnlyWaits r specs settings i s)
    (hs : specs[i]? = some s) : ∀ e ∈ overallErrors settings specs, e.stage ≠ i := by
  have hzero : 0 ≠ i := Nat.ne_of_lt h.pos
  intro e he
  unfold overallErrors at he
  rcases List.mem_append.mp he with he | he
  · rcases List.mem_append.mp he with he | he
    · split at he
      next => rw [List.mem_singleton.mp he]; exact hzero
      next => simp at he
    · split at he
      next => rw [List.mem_singleton.mp he]; exact hzero
      next => simp at he
  · unfold mixingErrors at he
    split at he
    next =>
      obtain ⟨site, hsite, hmixed⟩ := List.mem_filterMap.mp he
      split at hmixed
      next htilizes =>
        rw [← Option.some.inj hmixed]
        rintro rfl
        -- it would have to be the stage itself, which does not tilize
        obtain ⟨k, hk⟩ := List.mem_iff_getElem?.mp hsite
        obtain rfl := index_of_getElem?_sites hk
        rw [getElem?_sites hs] at hk
        rw [← Option.some.inj hk] at htilizes
        simp [siteAt, StageSpec.tilizes, h.kind_eq hs] at htilizes
      next => simp at hmixed
    next => simp at he

/-- Somebody else is to blame, and it is not. -/
theorem OnlyWaits.not_blamed (h : OnlyWaits r specs settings i s) (hr : r.Declared)
    (hs : specs[i]? = some s) :
    (assemble r specs settings).errors ≠ [] ∧
      ∀ e ∈ (assemble r specs settings).errors, e.stage ≠ i := by
  have hsplit : sites specs =
      (sites specs).take i ++ siteAt specs i s :: (sites specs).drop (i + 1) := by
    obtain ⟨hk, hat⟩ := List.getElem?_eq_some_iff.mp (getElem?_sites hs)
    rw [← hat, ← List.drop_eq_getElem_cons hk, List.take_append_drop]
  have hrun : assemble r specs settings =
      (((assembleBefore r specs settings i).step settings (siteAt specs i s)).value.run settings
        ((sites specs).drop (i + 1))).value := by
    unfold assemble assembleBefore
    conv_lhs => rw [hsplit]
    rw [BuildState.value_run_append]
    rfl
  constructor
  · intro hnil
    -- without an error every stage in front has been resolved, and none has failed
    have hfront : (assembleBefore r specs settings i).errors = [] := by
      have hstep := BuildState.prefix_errors_step settings (assembleBefore r specs settings i)
        (siteAt specs i s)
      have hrest := BuildState.prefix_errors_run settings ((sites specs).drop (i + 1))
        ((assembleBefore r specs settings i).step settings (siteAt specs i s)).value
      rw [← hrun, hnil] at hrest
      exact List.prefix_nil.mp (hstep.trans hrest)
    obtain ⟨stages, final, hall⟩ := BuildState.resolvesAll_of_errors_nil
      ⟨r, overallErrors settings specs, [], []⟩ rfl hfront
    refine h.failed_ne_nil ?_
    rw [assembleBefore, BuildState.run_of_resolvesAll hall _ rfl]
  · have hfilter : (assemble r specs settings).errors.filter (fun e => e.stage == i) = [] := by
      have hP : ∀ e : BuildError, (e.stage == i) = true → e.stage = i := fun e he => by
        simpa using he
      rw [hrun, BuildState.filter_errors_run hP ne_index_of_mem_drop_sites,
        BuildState.errors_step, h.causes_eq_nil hr, List.map_nil, List.append_nil,
        assembleBefore, BuildState.filter_errors_run hP ne_index_of_mem_take_sites,
        List.filter_eq_nil_iff]
      intro e he
      simpa using h.stage_ne_of_overall hs e he
    intro e he hstage
    have := List.filter_eq_nil_iff.mp hfilter e he
    simp [hstage] at this

/-- **A report names causes and not consequences.** -/
theorem build_blames_causes (hr : r.Declared) (specs : List StageSpec) (settings : Settings) :
    (∀ i s, specs[i]? = some s → OnlyWaits r specs settings i s →
      ∃ errors, (Pipeline.build r specs settings).value = .error errors ∧
        ∀ e ∈ errors, e.stage ≠ i) ∧
    ∀ (i : Nat) (specs' : List StageSpec), specs.take (i + 1) = specs'.take (i + 1) →
      localErrors i (Pipeline.build r specs settings).value =
        localErrors i (Pipeline.build r specs' settings).value := by
  refine ⟨fun i s hs h => ?_, fun i specs' hagree => localErrors_congr hr hagree⟩
  obtain ⟨hne, hothers⟩ := h.not_blamed hr hs
  refine ⟨_, build_eq_error_iff.mpr (Or.inl ⟨hne, rfl⟩), fun e he => ?_⟩
  exact hothers e (mem_sortErrors.mp he)

end Report

/-- The orphaned stages, and a third one that reads what the second one was to write. -/
def strandedSpecs : List StageSpec :=
  orphanedSpecs ++
    [{ loader := ⟨.direct, "a", some "prod", .sourceB, false, false⟩
       arithmetic := .eltwise .sub
       nonlinear := []
       output := "rest"
       outputFormat := .float16b
       fidelity := .lofi
       unpackToDest := false }]

/-- The third stage waits for the second one, which waits for the first one. -/
theorem onlyWaits_stranded :
    OnlyWaits crowdedRegistry strandedSpecs fusedSettings 2 strandedSpecs[2] := by
  have hregistry : (assembleBefore crowdedRegistry strandedSpecs fusedSettings 2).registry =
      ⟨crowdedRegistry.operands.take 3 ++
        [⟨3, "sum", .intermediate, some 0, .pinned 7, none⟩,
          ⟨4, "prod", .intermediate, some 1, .floating, none⟩]⟩ := by
    decide +kernel
  have hfailed : (assembleBefore crowdedRegistry strandedSpecs fusedSettings 2).failed = [0, 1] := by
    decide +kernel
  have hprod : (assembleBefore crowdedRegistry strandedSpecs fusedSettings 2).Awaited "prod" := by
    unfold BuildState.Awaited
    rw [hregistry, hfailed]
    exact ⟨_, 1, rfl, rfl, by decide⟩
  refine ⟨by decide, by decide, ?_, ?_, ⟨"prod", by decide, hprod⟩⟩
  · have hown : ∀ j < strandedSpecs.length,
        strandedSpecs[j]?.any (·.output == "rest") = true → j = 2 := by
      decide
    intro j t ht hout
    have hout : t.output = "rest" := hout
    exact hown j (List.getElem?_eq_some_iff.mp ht).1 (by simp [ht, hout])
  · intro n hn
    have hn : n ∈ ["a", "prod"] := hn
    rcases List.mem_cons.mp hn with rfl | hn
    · rw [hregistry]
      exact Or.inl ⟨_, rfl, rfl⟩
    · rw [List.mem_singleton.mp hn]
      exact Or.inr hprod

/-- The third stage is not in the report, and the first one has the error that it has alone. -/
theorem build_blames_causes_stranded :
    (∃ errors, (Pipeline.build crowdedRegistry strandedSpecs fusedSettings).value = .error errors ∧
      ∀ e ∈ errors, e.stage ≠ 2) ∧
    localErrors 0 (Pipeline.build crowdedRegistry strandedSpecs fusedSettings).value =
      localErrors 0 (Pipeline.build crowdedRegistry (strandedSpecs.take 1) fusedSettings).value := by
  obtain ⟨hwaits, hagree⟩ :=
    build_blames_causes declared_crowdedRegistry strandedSpecs fusedSettings
  exact ⟨hwaits 2 _ rfl onlyWaits_stranded, hagree 0 _ rfl⟩

end TileFusion
