import TileFusion.Proofs.AcceptedDescriptions
import TileFusion.Proofs.FullReports
import TileFusion.Proofs.Blame

/-!
# What the check of a description spares a build

A description is checked before its operands are declared, and a build checks its stages once more
when it resolves them. The two look at names and shapes in different ways: the check collects names
in a set, over inputs and outputs at once, while a build claims every output in a registry in which
some outputs have been declared and others appear stage by stage; and the check sees the shapes of
inputs only, while a build sees every source. This file says that the first makes part of the second
idle:

> `load_rules_out`: a build of a loaded description never reports that an output is taken, that it
> is declared for another stage, or that a source is not made of whole tiles.

What a build keeps true from stage to stage (`BuildState.Clear`) is that the outputs of the stages
still to come are `Vacant` and that everything that is settled is made of whole tiles. A stage
touches no output but its own, and the shape of its result is put together from its sources, so both
outlast it whether it resolves or fails.
-/

namespace TileFusion

/-- Trouble that a build of a checked description cannot have: an output that somebody else has, or
a source that is not made of whole tiles. -/
def Cause.ruledOut : Cause → Bool
  | duplicateOperand _ | fusion (.outputOfOther _ _) | shape (.brokenTiles _ _) => true
  | _ => false

/-! ## One stage -/

theorem descriptionCauses_not_ruledOut (platform : Platform) (site : Site) :
    ∀ cause ∈ descriptionCauses platform site, cause.ruledOut = false := by
  have hfusion : ∀ fault ∈ fusionFaults site, (Cause.fusion fault).ruledOut = false := by
    unfold fusionFaults
    cases site.previous with
    | none => simp [Cause.ruledOut]
    | some previous =>
      by_cases hreuse : site.spec.loader.reuse.isReuse = true
      · cases hreused : site.spec.loader.reused with
        | none => simp [hreuse, hreused, Cause.ruledOut]
        | some name => simp [hreuse, hreused, Cause.ruledOut]
      · simp [hreuse, Cause.ruledOut]
  have hcount : ∀ fault ∈ operandCountFaults site.spec, (Cause.shape fault).ruledOut = false := by
    unfold operandCountFaults
    simp [Cause.ruledOut]
  simp only [descriptionCauses, List.forall_mem_append, List.forall_mem_map]
  exact ⟨⟨hfusion, fun _ _ => rfl⟩, hcount⟩

theorem findSource_not_ruledOut (r : Registry) (failed : List Nat) (name : String) :
    ∀ cause ∈ searchCauses (findSource r failed name), cause.ruledOut = false := by
  unfold findSource
  split
  next => simp [searchCauses, Cause.ruledOut]
  next =>
    split
    next => simp [searchCauses]
    next => split <;> simp [searchCauses, Cause.ruledOut]

theorem findSecond_not_ruledOut (r : Registry) (failed : List Nat) (name : Option String) :
    ∀ cause ∈ searchCauses (findSecond r failed name), cause.ruledOut = false := by
  cases name with
  | none => simp [findSecond, searchCauses]
  | some name =>
    rw [findSecond, searchCauses_map]
    exact findSource_not_ruledOut r failed name

/-- The shapes of sources that are made of whole tiles may still not go together. -/
theorem shapeFaults_not_ruledOut {spec : StageSpec} {a : Operand} {b : Option Operand}
    (h : ∀ o ∈ a :: b.toList, o.dims.Whole) :
    ∀ fault ∈ shapeFaults spec a b, (Cause.shape fault).ruledOut = false := by
  have htiles : tileFaults (a :: b.toList) = [] := by
    unfold tileFaults
    refine List.filterMap_eq_nil_iff.mpr fun o ho => if_pos ?_
    exact (isWhole_iff o.dims).mpr (h o ho)
  rw [shapeFaults, htiles, List.nil_append]
  unfold agreementFaults
  split
  next => split <;> simp [Cause.ruledOut]
  next => split <;> simp [Cause.ruledOut]
  next => simp

theorem resolveWith_not_ruledOut {settings : Settings} {r : Registry} {site : Site}
    {early : List Cause} {a : Operand} {b : Option Operand} (hvacant : Vacant r site)
    (hearly : ∀ cause ∈ early, cause.ruledOut = false)
    (hwhole : ∀ o ∈ a :: b.toList, o.dims.Whole) :
    ∀ cause ∈ (resolveWith settings r site early a b).value.causes, cause.ruledOut = false := by
  obtain ⟨declared, output, hclaim⟩ := exists_claimOutput_of_vacant hvacant
  have hfound : ∀ cause ∈ early ++ (shapeFaults site.spec a b).map Cause.shape,
      cause.ruledOut = false := by
    rw [List.forall_mem_append, List.forall_mem_map]
    exact ⟨hearly, shapeFaults_not_ruledOut hwhole⟩
  unfold resolveWith
  cases hplan : (formatRequest settings site.spec a b).plan with
  | error error =>
    simpa [hclaim, hplan, causesOf, Except.mapError, or_imp, forall_and, Cause.ruledOut]
      using hfound
  | ok formats =>
    simp only [hclaim, hplan]
    generalize hcauses : early ++ (shapeFaults site.spec a b).map Cause.shape ++ _ ++
      (if settings.batchSize ≤ accumulatorCapacity settings.platform
        (needsWideDest (formatRequest settings site.spec a b)) settings.destSync then []
        else _) = causes
    have hall : ∀ cause ∈ causes, cause.ruledOut = false := by
      rw [← hcauses, List.forall_mem_append, List.forall_mem_append]
      refine ⟨⟨hfound, ?_⟩, ?_⟩
      · split <;> simp [Cause.ruledOut]
      · split <;> simp [Cause.ruledOut]
    by_cases hempty : causes.isEmpty = true
    · -- nothing was found, so the output is settled, unless it is too large
      rw [if_pos hempty]
      cases hres : output.resolve? (stageShape site.spec a b).dims site.spec.outputFormat with
      | none => simp [Registry.resolve, hres, Cause.ofRegistry, Cause.ruledOut]
      | some o =>
        simp only [Registry.resolve, hres, Logged.value_bind, Logged.value_pure]
        split <;> simp
    · rw [if_neg hempty]
      exact hall

/-- What is settled is made of whole tiles. -/
def Registry.WholeTiles (r : Registry) : Prop :=
  ∀ name o, Settled r name o → o.dims.Whole

theorem Registry.WholeTiles.of_second {r : Registry} (h : r.WholeTiles) {name : Option String}
    {b : Option Operand} (hb : SettledSecond r name b) : ∀ o ∈ b, o.dims.Whole := by
  intro o ho
  cases name with
  | none =>
    rw [SettledSecond] at hb
    simp [hb] at ho
  | some name =>
    obtain ⟨x, rfl, hx⟩ := hb
    obtain rfl := Option.some.inj ho
    exact h name x hx

/-- **A stage** whose output is vacant and whose sources are made of whole tiles. -/
theorem resolveStage_not_ruledOut {settings : Settings} {r : Registry} {failed : List Nat}
    {site : Site} (hvacant : Vacant r site) (hwhole : r.WholeTiles) :
    ∀ cause ∈ (resolveStage settings r failed site).value.causes, cause.ruledOut = false := by
  obtain ⟨declared, output, hclaim⟩ := exists_claimOutput_of_vacant hvacant
  have hearly := descriptionCauses_not_ruledOut settings.platform site
  have hfirst := findSource_not_ruledOut r failed site.spec.loader.sourceA
  have hsecond := findSecond_not_ruledOut r failed site.spec.loader.sourceB
  unfold resolveStage
  cases ha : findSource r failed site.spec.loader.sourceA with
  | error causes =>
    rw [ha] at hfirst
    simp only [hclaim, Logged.value_pure, causesOf, List.append_nil, List.forall_mem_append]
    exact ⟨⟨hearly, hfirst⟩, hsecond⟩
  | ok a =>
    cases hb : findSecond r failed site.spec.loader.sourceB with
    | error causes =>
      rw [hb] at hsecond
      simp only [hclaim, Logged.value_pure, causesOf, List.append_nil, List.forall_mem_append]
      exact ⟨⟨hearly, by simp [searchCauses]⟩, hsecond⟩
    | ok b =>
      refine resolveWith_not_ruledOut hvacant hearly fun o ho => ?_
      obtain rfl | ho := List.mem_cons.mp ho
      · exact hwhole _ _ (findSource_eq_ok_iff.mp ha)
      · exact hwhole.of_second (findSecond_eq_ok_iff.mp hb) o (Option.mem_toList.mp ho)

/-! ## The stages of a build -/

theorem StageShape.whole {spec : StageSpec} {a : Operand} {b : Option Operand}
    (ha : a.dims.Whole) (hb : ∀ o ∈ b, o.dims.Whole) : (stageShape spec a b).dims.Whole := by
  unfold stageShape
  split
  next o _ =>
    have ho := hb o rfl
    exact ⟨ha.1, ho.2.1, ha.2.2.1, ho.2.2.2⟩
  next => exact ha

/-- What a build keeps true while the stages `todo` are still to come. -/
structure BuildState.Clear (todo : List Site) (state : BuildState) : Prop where
  wellFormed : state.registry.WellFormed
  /-- Nobody has the output of a stage to come. -/
  vacant : ∀ site ∈ todo, Vacant state.registry site
  /-- What is settled is made of whole tiles. -/
  whole : state.registry.WholeTiles
  /-- Nothing of the kind was reported. -/
  errors : ∀ e ∈ state.errors, e.cause.ruledOut = false

namespace BuildState

variable {settings : Settings} {state : BuildState}

theorem Clear.wholeTiles_step {site : Site} {todo : List Site} (h : state.Clear (site :: todo)) :
    (state.step settings site).value.registry.WholeTiles := by
  intro name o ho
  obtain ⟨a, b, c, formats, hres, hstep⟩ | ⟨causes, hstep, -⟩ := state.step_cases settings site
  · rw [hstep, Settled, Registry.find?_settle h.wellFormed] at ho
    split at ho
    next =>
      -- the output of the stage itself
      obtain rfl := Option.some.inj ho.1
      rw [Operand.dims_of_contents (Registry.contents_settledOutput ..),
        Contents.dims_of? hres.contents]
      exact StageShape.whole (h.whole _ _ hres.sourceA) (h.whole.of_second hres.sourceB)
    next => exact h.whole name o ho
  · rw [hstep] at ho
    exact h.whole name o ⟨find?_claimOutput h.wellFormed site ho.1 ho.2, ho.2⟩

/-- One more stage, with an output of its own. -/
theorem Clear.step {site : Site} {todo : List Site} (h : state.Clear (site :: todo))
    (hown : ∀ x ∈ todo, x.spec.output ≠ site.spec.output) :
    (state.step settings site).value.Clear todo where
  wellFormed := wellFormed_step settings h.wellFormed site
  vacant := by
    intro x hx o ho
    rw [find?_step_of_ne h.wellFormed (hown x hx)] at ho
    exact h.vacant x (List.mem_cons_of_mem _ hx) o ho
  whole := h.wholeTiles_step
  errors := by
    rw [errors_step, List.forall_mem_append, List.forall_mem_map]
    exact ⟨h.errors, resolveStage_not_ruledOut (h.vacant site (List.mem_cons_self ..)) h.whole⟩

/-- The whole run. -/
theorem Clear.run (sites : List Site) :
    ∀ {state : BuildState}, state.Clear sites → (sites.map (·.spec.output)).Nodup →
      (state.run settings sites).value.Clear [] := by
  induction sites with
  | nil => exact fun h _ => h
  | cons site rest ih =>
    intro state h hnodup
    rw [List.map_cons, List.nodup_cons] at hnodup
    exact ih (h.step fun x hx hname => hnodup.1 (hname ▸ List.mem_map_of_mem hx)) hnodup.2

end BuildState

theorem overallErrors_not_ruledOut {settings : Settings} {specs : List StageSpec} :
    ∀ e ∈ overallErrors settings specs, e.cause.ruledOut = false := by
  unfold overallErrors
  rw [List.forall_mem_append, List.forall_mem_append]
  refine ⟨⟨?_, ?_⟩, ?_⟩
  · split <;> simp [Cause.ruledOut]
  · split <;> simp [Cause.ruledOut]
  · intro e he
    unfold mixingErrors at he
    split at he
    next =>
      obtain ⟨site, -, hsite⟩ := List.mem_filterMap.mp he
      split at hsite
      next =>
        rw [← Option.some.inj hsite]
        rfl
      next => simp at hsite
    next => simp at he

/-- **A build** on a registry in which the outputs of its stages are vacant, and all that is settled
is made of whole tiles. -/
theorem build_not_ruledOut {r : Registry} {specs : List StageSpec} {settings : Settings}
    (hr : r.WellFormed) (hvacant : ∀ site ∈ sites specs, Vacant r site) (hwhole : r.WholeTiles)
    (hnodup : (specs.map (·.output)).Nodup) {errors : List BuildError}
    (h : (Pipeline.build r specs settings).value = .error errors) :
    ∀ e ∈ errors, e.cause.ruledOut = false := by
  have hnodup : ((sites specs).map (·.spec.output)).Nodup := by
    have hsame := congrArg (List.map StageSpec.output) (map_spec_sites 0 none specs)
    rw [List.map_map] at hsame
    exact hsame ▸ hnodup
  have hclear : (assemble r specs settings).Clear [] :=
    BuildState.Clear.run (sites specs) ⟨hr, hvacant, hwhole, overallErrors_not_ruledOut⟩ hnodup
  obtain ⟨-, rfl⟩ | ⟨-, e, halloc, rfl⟩ := build_eq_error_iff.mp h
  · exact fun e he => hclear.errors e (mem_sortErrors.mp he)
  · intro x hx
    rw [List.mem_singleton.mp hx, placementError,
      hclear.wellFormed.ofRegistry_of_allocate halloc]
    rfl

/-! ## A build of a description -/

section Loaded

variable {d : Description}

/-- The outputs of described stages can all be claimed. -/
theorem Description.vacant_declared (hnames : d.names.Nodup) {specs : List StageSpec}
    (hspecs : List.Forall₂ StageEntry.Describes d.stages specs) :
    ∀ site ∈ sites specs, Vacant d.declared site := by
  intro site hsite o ho
  obtain ⟨i, hi⟩ := List.mem_iff_getElem?.mp hsite
  obtain rfl := index_of_getElem?_sites hi
  have hspec : specs[site.index]? = some site.spec := by
    have hmap : ((sites specs).map (·.spec))[site.index]? = specs[site.index]? :=
      congrArg (·[site.index]?) (map_spec_sites 0 none specs)
    rw [← hmap, List.getElem?_map, hi]
    rfl
  obtain ⟨e, he, hdescribes⟩ := exists_getElem?_of_forall₂ hspecs hspec
  have hname : o.name = e.output := (Registry.name_of_find? ho).trans hdescribes.output
  obtain ⟨x, hx, id, rfl⟩ | ⟨j, x, address, id, hx, -, rfl⟩ :=
    d.of_mem_declared (Registry.mem_of_find? ho)
  · exact absurd hname.symm (d.output_ne_input hnames (List.mem_of_getElem? he) hx)
  · refine ⟨by simp [StageEntry.operand], rfl, fun p hp => ?_⟩
    obtain rfl := Option.some.inj hp
    exact d.eq_of_output hnames hx he hname

/-- Of what is declared only inputs are settled, and they are made of whole tiles. -/
theorem Description.wholeTiles_declared (hwhole : ∀ e ∈ d.inputs, e.dims.Whole) :
    d.declared.WholeTiles := by
  intro name o ho
  obtain ⟨e, he, id, rfl⟩ | ⟨j, x, address, id, -, -, rfl⟩ :=
    d.of_mem_declared (Registry.mem_of_find? ho.1)
  · exact hwhole e he
  · simpa [StageEntry.operand, Operand.isResolved] using ho.2

/-- The unit runs at least once, and what it fills with is finite. -/
def Nonlinear.Proper : Nonlinear → Prop
  | .unary _ iterations _ fill => 1 ≤ iterations ∧ fill.isFinite = true
  | .binary _ iterations _ _ _ _ => 1 ≤ iterations

theorem NonlinearEntry.Describes.proper {e : NonlinearEntry} (he : 1 ≤ e.iterations)
    {unit : Nonlinear} (h : e.Describes unit) : unit.Proper := by
  cases unit with
  | unary op iterations approximate fill =>
    obtain ⟨-, -, rfl, -, -, hfinite⟩ := h
    exact ⟨he, hfinite⟩
  | binary op iterations approximate first second result =>
    obtain ⟨-, -, rfl, -⟩ := h
    exact he

/-! ## How loading fails -/

/-- The fault is one of turning a checked description into what a build takes. -/
def DescriptionFault.isConversion : DescriptionFault → Bool
  | registry _ | incompleteArithmetic _ | unknownUnary _ | unknownBinary _ | infiniteFill _ _ |
    fillOnBinary _ => true
  | _ => false

theorem checkInputs_not_conversion {inputs : List InputEntry} :
    ∀ {taken : List String} {fault : DescriptionFault},
      checkInputs taken inputs = .error fault → fault.isConversion = false := by
  induction inputs with
  | nil => simp [checkInputs]
  | cons e rest ih =>
    intro taken fault h
    unfold checkInputs at h
    split at h
    · rw [← Except.error.inj h]
      rfl
    · split at h
      · rw [← Except.error.inj h]
        rfl
      · exact ih h

theorem checkStage_not_conversion {inputs : List InputEntry} {index : Nat} {e : StageEntry}
    {fault : DescriptionFault} (h : checkStage inputs index e = .error fault) :
    fault.isConversion = false := by
  unfold checkStage at h
  simp only at h
  repeat' split at h
  all_goals first
    | (rw [← Except.error.inj h]; rfl)
    | exact absurd h (by simp)

theorem checkStages_not_conversion {inputs : List InputEntry} {stages : List StageEntry} :
    ∀ {index : Nat} {taken : List String} {fault : DescriptionFault},
      checkStages inputs index taken stages = .error fault → fault.isConversion = false := by
  induction stages with
  | nil => simp [checkStages]
  | cons e rest ih =>
    intro index taken fault h
    unfold checkStages at h
    split at h
    · rw [← Except.error.inj h]
      rfl
    · cases hstage : checkStage inputs index e with
      | error x =>
        rw [hstage] at h
        rw [← Except.error.inj h]
        exact checkStage_not_conversion hstage
      | ok u =>
        rw [hstage] at h
        exact ih h

/-- The check itself has faults of its own. -/
theorem Description.check_not_conversion {fault : DescriptionFault} (h : d.check = .error fault) :
    fault.isConversion = false := by
  unfold check at h
  cases hinputs : checkInputs [] d.inputs with
  | error x =>
    rw [hinputs] at h
    rw [← Except.error.inj h]
    exact checkInputs_not_conversion hinputs
  | ok names =>
    rw [hinputs] at h
    exact checkStages_not_conversion h

/-- A description fails in its check, or it is `Refused`. -/
theorem Description.of_load_eq_error {platform : Platform} {fault : DescriptionFault}
    (h : (d.load platform).value = .error fault) :
    (d.check = .error fault ∧ fault.isConversion = false) ∨
      (d.check = .ok () ∧ d.Refused fault) := by
  cases hcheck : d.check with
  | error x =>
    have hx : x = fault := by simpa [load, hcheck] using h
    exact .inl ⟨by rw [hx], hx ▸ check_not_conversion hcheck⟩
  | ok u =>
    obtain ⟨specs, hok, -⟩ | ⟨x, herror, hrefused⟩ := load_of_check hcheck platform
    · rw [h] at hok
      simp at hok
    · rw [h] at herror
      obtain rfl := Except.error.inj herror
      exact .inr ⟨rfl, hrefused⟩

end Loaded

/-- **What loading a description rules out.** When it succeeds, there is one spec for every stage,
in order, every nonlinear unit is proper, and a build has no error of the three kinds that the check
has looked for. When it fails, then neither for an arithmetic unit whose settings are not all there
nor for a name that is declared twice, and behind the check only for an input that no word addresses
or a nonlinear unit that is refused. -/
theorem load_rules_out (d : Description) (platform : Platform) :
    (∀ input, (d.load platform).value = .ok input →
      List.Forall₂ StageEntry.Describes d.stages input.specs ∧
      (∀ s ∈ input.specs, ∀ unit ∈ s.nonlinear, unit.Proper) ∧
      ∀ errors,
        (Pipeline.build input.registry input.specs input.settings).value = .error errors →
          ∀ e ∈ errors, (∀ name, e.cause ≠ .duplicateOperand name) ∧
            (∀ name producer, e.cause ≠ .fusion (.outputOfOther name producer)) ∧
            ∀ name dims, e.cause ≠ .shape (.brokenTiles name dims)) ∧
    ∀ fault, (d.load platform).value = .error fault →
      (∀ index, fault ≠ .incompleteArithmetic index) ∧
      (∀ name, fault ≠ .registry (.duplicate name)) ∧
      (d.check = .ok () → d.Refused fault) := by
  constructor
  · intro input hload
    obtain ⟨hcheck, hfits, hregistry, -, hspecs⟩ := d.of_load_eq_ok hload
    obtain ⟨hwhole, hnames, hstages⟩ := Description.check_eq_ok_iff.mp hcheck
    refine ⟨hspecs, ?_, ?_⟩
    · refine forall_mem_of_forall₂ hspecs fun e he s hs => ?_
      exact forall_mem_of_forall₂ hs.nonlinear fun u hu unit hunit =>
        hunit.proper ((hstages e he).1.iterations u hu)
    · intro errors hbuild e he
      rw [hregistry] at hbuild
      have houtputs : input.specs.map (·.output) = d.stages.map (·.output) :=
        map_eq_of_forall₂ hspecs fun _ _ _ hdescribes => hdescribes.output
      have hnodup : (input.specs.map (·.output)).Nodup := houtputs ▸ hnames.of_append_right
      have hnot := build_not_ruledOut (d.declared_declared hnames hfits).wellFormed
        (d.vacant_declared hnames hspecs) (d.wholeTiles_declared hwhole) hnodup hbuild e he
      refine ⟨?_, ?_, ?_⟩ <;> intros <;> intro hcause <;> simp [hcause, Cause.ruledOut] at hnot
  · intro fault hload
    obtain ⟨hcheck, hnot⟩ | ⟨-, hrefused⟩ := d.of_load_eq_error hload
    · refine ⟨?_, ?_, fun hok => by simp [hcheck] at hok⟩
      · rintro index rfl
        simp [DescriptionFault.isConversion] at hnot
      · rintro name rfl
        simp [DescriptionFault.isConversion] at hnot
    · refine ⟨?_, ?_, fun _ => hrefused⟩
      · rintro index rfl
        cases hrefused with
        | unit i e _ u _ _ refused => cases refused
      · rintro name rfl
        cases hrefused with
        | unit i e _ u _ _ refused => cases refused

/-- A description that loads, and whose build still has something to report; and one that passes its
check and does not load. -/
theorem load_rules_out_copying :
    (∃ input, ((copying "missing" (plainUnary "fill")).load .wormhole).value = .ok input ∧
      (Pipeline.build input.registry input.specs input.settings).value =
        .error [⟨0, .unknownOperand "missing"⟩] ∧
      (∀ s ∈ input.specs, ∀ unit ∈ s.nonlinear, unit.Proper) ∧
      ∀ name, (Cause.unknownOperand "missing") ≠ .duplicateOperand name) ∧
    ((copying "a" (plainUnary "cube")).load .wormhole).value = .error (.unknownUnary "cube") ∧
      (copying "a" (plainUnary "cube")).Refused (.unknownUnary "cube") := by
  have hloads := (load_rules_out (copying "missing" (plainUnary "fill")) .wormhole).1
  have hfails := (load_rules_out (copying "a" (plainUnary "cube")) .wormhole).2
  refine ⟨⟨_, rfl, by decide +kernel, (hloads _ rfl).2.1, ?_⟩, rfl, (hfails _ rfl).2.2 rfl⟩
  have herrors := (hloads _ rfl).2.2 [⟨0, .unknownOperand "missing"⟩] (by decide +kernel)
  exact (herrors _ (List.mem_cons_self ..)).1

end TileFusion
