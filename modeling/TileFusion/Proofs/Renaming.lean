import Mathlib.Logic.Function.Basic
import Mathlib.Tactic.Simps.Basic
import TileFusion.Build
import TileFusion.Proofs.FirstFit

/-!
# Renaming operands

Stages refer to operands by name, so names are compared all over a build: to find sources and
outputs, to tell who reads what later, to see that a stage takes over its predecessor's output, and
to blame the right stage when placement fails. They also end up in errors. What they are must not
matter:

> `build_rename`: with all operands renamed by an injective function, a build comes out as before,
> with the same function applied to the names in the pipeline or in the errors.

Each function that sees a name gets one equation that moves the renaming from its arguments to its
result. Injectivity is used where names are compared and nowhere else.
-/

namespace TileFusion

/-! ## What is renamed -/

/-- The operand under another name. -/
@[simps] def Operand.rename (f : String → String) (o : Operand) : Operand :=
  { o with name := f o.name }

/-- All operands, each in its place. -/
@[simps] def Registry.rename (f : String → String) (r : Registry) : Registry :=
  ⟨r.operands.map (Operand.rename f)⟩

/-- What a stage reads. -/
@[simps] def Loader.rename (f : String → String) (l : Loader) : Loader :=
  { l with sourceA := f l.sourceA, sourceB := l.sourceB.map f }

/-- The description of a stage: what it reads and what it writes. -/
@[simps] def StageSpec.rename (f : String → String) (s : StageSpec) : StageSpec :=
  { s with loader := s.loader.rename f, output := f s.output }

/-- A description together with those in front and behind. -/
@[simps] def Site.rename (f : String → String) (site : Site) : Site :=
  { site with
    previous := site.previous.map (StageSpec.rename f)
    spec := site.spec.rename f
    later := site.later.map (StageSpec.rename f) }

/-- Only the description of a stage has names in it; operands are known by their ids. -/
@[simps] def Stage.rename (f : String → String) (s : Stage) : Stage :=
  { s with spec := s.spec.rename f }

/-- Stages and operands of a pipeline; the settings have no names in them. -/
@[simps] def Pipeline.rename (f : String → String) (p : Pipeline) : Pipeline :=
  { p with stages := p.stages.map (Stage.rename f), registry := p.registry.rename f }

/-- An extent has a name only for the report of a clash. -/
@[simps] def Extent.rename (f : String → String) (x : Extent) : Extent :=
  { x with name := f x.name }

/-- The registry blames operands by name. -/
def RegistryError.rename (f : String → String) : RegistryError → RegistryError
  | duplicate name => duplicate (f name)
  | unknown name => unknown (f name)
  | tooLarge name => tooLarge (f name)
  | overlap name other => overlap (f name) (f other)

/-- Faults of the chain: three of them speak about operands. -/
def FusionFault.rename (f : String → String) : FusionFault → FusionFault
  | reuseMismatch name previous output => reuseMismatch (f name) previous (f output)
  | readTooEarly name producer => readTooEarly (f name) producer
  | outputOfOther name producer => outputOfOther (f name) producer
  | fault => fault

/-- Faults of shape: three of them speak about operands. -/
def ShapeFault.rename (f : String → String) : ShapeFault → ShapeFault
  | brokenTiles name dims => brokenTiles (f name) dims
  | innerMismatch a cols b rows => innerMismatch (f a) cols (f b) rows
  | dimsMismatch a dimsA b dimsB => dimsMismatch (f a) dimsA (f b) dimsB
  | fault => fault

/-- Formats, capacities and restrictions are reported without a name. -/
def Cause.rename (f : String → String) : Cause → Cause
  | fusion fault => fusion (fault.rename f)
  | shape fault => shape (fault.rename f)
  | duplicateOperand name => duplicateOperand (f name)
  | unknownOperand name => unknownOperand (f name)
  | placement error => placement (error.rename f)
  | cause => cause

/-- Stages are blamed by number, whatever the cause. -/
@[simps] def BuildError.rename (f : String → String) (e : BuildError) : BuildError :=
  { e with cause := e.cause.rename f }

/-- What a stage leaves behind: a registry, complaints, and itself. -/
@[simps] def StageOutcome.rename (f : String → String) (x : StageOutcome) : StageOutcome where
  registry := x.registry.rename f
  causes := x.causes.map (Cause.rename f)
  stage := x.stage.map (Stage.rename f)

/-- The state of a build. Stages that have failed are known by their numbers. -/
@[simps] def BuildState.rename (f : String → String) (x : BuildState) : BuildState where
  registry := x.registry.rename f
  errors := x.errors.map (BuildError.rename f)
  failed := x.failed
  stages := x.stages.map (Stage.rename f)

/-- Maps a result, whichever way it came out. -/
def mapResult {ε ε' α β : Type} (onError : ε → ε') (onOk : α → β) : Except ε α → Except ε' β
  | .ok a => .ok (onOk a)
  | .error e => .error (onError e)

@[simp] theorem mapResult_ok {ε ε' α β : Type} (g : ε → ε') (h : α → β) (a : α) :
    mapResult g h (.ok a) = .ok (h a) := rfl

@[simp] theorem mapResult_error {ε ε' α β : Type} (g : ε → ε') (h : α → β) (e : ε) :
    mapResult g h (.error e) = .error (g e) := rfl

section Equations

variable {f : String → String}

/-! ## Registries -/

/-- Shape, format and place decide whether an operand can be settled. -/
theorem Operand.resolve?_rename (o : Operand) (dims : Dims) (format : DataFormat) :
    (o.rename f).resolve? dims format = (o.resolve? dims format).map (Operand.rename f) := by
  unfold resolve?
  cases Contents.of? dims format with
  | none => rfl
  | some c =>
    simp only [Option.bind_eq_bind, Option.bind_some, rename_location]
    split <;> rfl

namespace Registry

@[simp] theorem size_rename (r : Registry) : (r.rename f).size = r.size := by
  simp [size]

/-- The search by name, which is where injectivity comes in. -/
theorem find?_rename (hf : Function.Injective f) (r : Registry) (name : String) :
    (r.rename f).find? (f name) = (r.find? name).map (Operand.rename f) := by
  have hname : (fun o : Operand => o.name == f name) ∘ Operand.rename f =
      fun o => o.name == name := by
    funext o
    simp [hf.eq_iff]
  rw [find?, rename_operands, List.find?_map, hname]
  rfl

theorem contains_rename (hf : Function.Injective f) (r : Registry) (name : String) :
    (r.rename f).contains (f name) = r.contains name := by
  rw [contains, find?_rename hf, Option.isSome_map]
  rfl

/-- A fresh operand gets the next id under any name. -/
theorem fresh_rename (r : Registry) (name : String) (role : Role) (producer address : Option Nat) :
    (r.rename f).fresh (f name) role producer address =
      (r.fresh name role producer address).rename f := by
  simp [fresh, Operand.rename]

theorem push_rename (r : Registry) (o : Operand) :
    (r.rename f).push (o.rename f) = (r.push o).rename f := by
  simp [push, rename]

/-- Changes go by id. -/
theorem modify_rename (r : Registry) (id : Nat) (o : Operand) :
    (r.rename f).modify id (fun _ => o.rename f) = (r.modify id fun _ => o).rename f := by
  unfold modify rename
  congr 1
  apply List.ext_getElem?
  intro i
  simp only [List.getElem?_modify, List.getElem?_map]
  cases r.operands[i]? <;> simp
  split <;> rfl

/-- An operand is settled in its registry, or too large, as before. -/
theorem resolve_rename (r : Registry) (o : Operand) (dims : Dims) (format : DataFormat) :
    ((r.rename f).resolve (o.rename f) dims format).value =
      mapResult (RegistryError.rename f) (Registry.rename f) (r.resolve o dims format).value := by
  unfold resolve
  rw [Operand.resolve?_rename]
  cases o.resolve? dims format with
  | none => rfl
  | some o' =>
    show Except.ok ((r.rename f).modify o.id fun _ => o'.rename f) = _
    rw [modify_rename]
    rfl

end Registry

/-! ## Descriptions -/

@[simp] theorem Loader.fresh_rename (l : Loader) : (l.rename f).fresh = l.fresh.map f := by
  unfold fresh
  cases hreuse : l.reuse <;> cases hsecond : l.sourceB <;> simp [hreuse, hsecond]

@[simp] theorem Loader.reused_rename (l : Loader) : (l.rename f).reused = l.reused.map f := by
  unfold reused
  cases hreuse : l.reuse <;> simp [hreuse]

/-- Whether a stage reads an operand is a comparison of names. -/
theorem StageSpec.reads_rename (hf : Function.Injective f) (s : StageSpec) (name : String) :
    (s.rename f).reads (f name) = s.reads name := by
  have hfirst : (f s.loader.sourceA == f name) = (s.loader.sourceA == name) := by
    simp [Bool.beq_eq_decide_eq, hf.eq_iff]
  have hsecond : (s.loader.sourceB.map f == some (f name)) = (s.loader.sourceB == some name) := by
    cases s.loader.sourceB <;> simp [Bool.beq_eq_decide_eq, hf.eq_iff]
  simp only [reads, rename_loader, Loader.rename_sourceA, Loader.rename_sourceB, hfirst, hsecond]

/-- So the same outputs are read again later on. -/
theorem Site.outputRole_rename (hf : Function.Injective f) (site : Site) :
    (site.rename f).outputRole = site.outputRole := by
  simp [outputRole, List.any_map, Function.comp_def, StageSpec.reads_rename hf]

/-- Descriptions are set side by side without a look at them. -/
theorem sitesFrom_rename (index : Nat) (previous : Option StageSpec) (specs : List StageSpec) :
    sitesFrom index (previous.map (StageSpec.rename f)) (specs.map (StageSpec.rename f)) =
      (sitesFrom index previous specs).map (Site.rename f) := by
  induction specs generalizing index previous with
  | nil => rfl
  | cons spec specs ih =>
    rw [List.map_cons, sitesFrom, sitesFrom, List.map_cons, ← ih]
    rfl

theorem sites_rename (specs : List StageSpec) :
    sites (specs.map (StageSpec.rename f)) = (sites specs).map (Site.rename f) :=
  sitesFrom_rename 0 none specs

/-- A stage takes over the operand that the one in front writes, whatever it is called. -/
theorem fusionFaults_rename (hf : Function.Injective f) (site : Site) :
    fusionFaults (site.rename f) = (fusionFaults site).map (FusionFault.rename f) := by
  unfold fusionFaults
  cases hprevious : site.previous with
  | none =>
    simp only [Site.rename_previous, hprevious, Option.map_none, Site.rename_spec,
      StageSpec.rename_loader, Loader.rename_reuse]
    split <;> rfl
  | some previous =>
    simp only [Site.rename_previous, hprevious, Option.map_some, Site.rename_spec,
      StageSpec.rename_loader, Loader.rename_reuse, Loader.reused_rename]
    split
    next => rfl
    next =>
      cases site.spec.loader.reused with
      | none => rfl
      | some name =>
        -- the one place where two names of one description meet
        simp only [Option.map_some, StageSpec.rename_output, beq_iff_eq, hf.eq_iff]
        split <;> rfl

/-- Operands are counted, and not compared. -/
theorem operandCountFaults_rename (s : StageSpec) :
    operandCountFaults (s.rename f) = (operandCountFaults s).map (ShapeFault.rename f) := by
  have hlength : (s.rename f).loader.fresh.length = s.loader.fresh.length := by simp
  have hwanted : freshWanted (s.rename f) = freshWanted s := rfl
  simp only [operandCountFaults, hlength, hwanted, StageSpec.rename_arithmetic]
  split <;> rfl

/-- All that is found on the face of a description. -/
theorem descriptionCauses_rename (hf : Function.Injective f) (platform : Platform) (site : Site) :
    descriptionCauses platform (site.rename f) =
      (descriptionCauses platform site).map (Cause.rename f) := by
  unfold descriptionCauses
  rw [fusionFaults_rename hf, Site.rename_spec, operandCountFaults_rename]
  simp only [List.map_append, List.map_map]
  rfl

/-- Which loaders go together does not depend on what they load. -/
theorem mixingErrors_rename (platform : Platform) (specs : List StageSpec) :
    mixingErrors platform (specs.map (StageSpec.rename f)) =
      (mixingErrors platform specs).map (BuildError.rename f) := by
  have htilizes : ∀ s : StageSpec, (s.rename f).tilizes = s.tilizes := fun _ => rfl
  unfold mixingErrors
  simp only [List.any_map, List.all_map, Function.comp_def, htilizes, sites_rename,
    List.filterMap_map]
  split
  next =>
    rw [List.map_filterMap]
    congr 1
    funext site
    show (if site.spec.tilizes then _ else _) = _
    split <;> rfl
  next => rfl

theorem overallErrors_rename (settings : Settings) (specs : List StageSpec) :
    overallErrors settings (specs.map (StageSpec.rename f)) =
      (overallErrors settings specs).map (BuildError.rename f) := by
  unfold overallErrors
  rw [mixingErrors_rename, List.isEmpty_map, List.map_append, List.map_append]
  congr 2 <;> split <;> rfl

/-! ## Shapes and formats -/

/-- The shape of an output comes from the shapes of the sources alone. -/
theorem stageShape_rename (spec : StageSpec) (a : Operand) (b : Option Operand) :
    stageShape (spec.rename f) (a.rename f) (b.map (Operand.rename f)) = stageShape spec a b := by
  unfold stageShape
  cases harith : spec.arithmetic <;> cases b <;> simp only [StageSpec.rename_arithmetic, harith] <;> rfl

/-- Sources that are not made of whole tiles are blamed by name, in order. -/
theorem tileFaults_rename (sources : List Operand) :
    tileFaults (sources.map (Operand.rename f)) =
      (tileFaults sources).map (ShapeFault.rename f) := by
  unfold tileFaults
  rw [List.filterMap_map, List.map_filterMap]
  congr 1
  funext o
  show (if o.dims.isWhole then _ else _) = Option.map _ (if o.dims.isWhole then _ else _)
  split <;> rfl

/-- So are two sources whose shapes do not go together. -/
theorem agreementFaults_rename (spec : StageSpec) (a : Operand) (b : Option Operand) :
    agreementFaults (spec.rename f) (a.rename f) (b.map (Operand.rename f)) =
      (agreementFaults spec a b).map (ShapeFault.rename f) := by
  unfold agreementFaults
  cases harith : spec.arithmetic <;> cases b <;>
    simp only [StageSpec.rename_arithmetic, harith, Option.map_none, Option.map_some,
      List.map_nil]
  case eltwise.some op b =>
    show (if spec.loader.kind.spread == .scalar || a.dims == b.dims then _ else _) = _
    split <;> rfl
  case matmul.some b =>
    show (if a.dims.cols == b.dims.rows then _ else _) = _
    split <;> rfl

theorem shapeFaults_rename (spec : StageSpec) (a : Operand) (b : Option Operand) :
    shapeFaults (spec.rename f) (a.rename f) (b.map (Operand.rename f)) =
      (shapeFaults spec a b).map (ShapeFault.rename f) := by
  have hsources : a.rename f :: (b.map (Operand.rename f)).toList =
      (a :: b.toList).map (Operand.rename f) := by
    cases b <;> rfl
  rw [shapeFaults, hsources, tileFaults_rename, agreementFaults_rename, shapeFaults,
    List.map_append]

/-- Formats are planned without names. -/
theorem formatRequest_rename (settings : Settings) (spec : StageSpec) (a : Operand)
    (b : Option Operand) :
    formatRequest settings (spec.rename f) (a.rename f) (b.map (Operand.rename f)) =
      formatRequest settings spec a b := by
  have hformats : loadFormats spec.loader.reuse (a.rename f) (b.map (Operand.rename f)) =
      loadFormats spec.loader.reuse a b := by
    unfold loadFormats
    cases spec.loader.reuse <;> cases b <;> rfl
  unfold formatRequest
  rw [StageSpec.rename_loader, Loader.rename_reuse, hformats]
  rfl

/-! ## Resolving a stage -/

/-- A source is found, missing, or waited for as before. -/
theorem findSource_rename (hf : Function.Injective f) (r : Registry) (failed : List Nat)
    (name : String) :
    findSource (r.rename f) failed (f name) =
      mapResult (List.map (Cause.rename f)) (Operand.rename f) (findSource r failed name) := by
  unfold findSource
  rw [r.find?_rename hf]
  cases r.find? name with
  | none => rfl
  | some o =>
    show (if o.isResolved then _ else if o.producer.any (failed.contains ·) then _ else _) =
      mapResult _ _ (if o.isResolved then _ else _)
    split
    next => rfl
    next => split <;> rfl

theorem findSecond_rename (hf : Function.Injective f) (r : Registry) (failed : List Nat)
    (name : Option String) :
    findSecond (r.rename f) failed (name.map f) =
      mapResult (List.map (Cause.rename f)) (Option.map (Operand.rename f))
        (findSecond r failed name) := by
  cases name with
  | none => rfl
  | some name =>
    rw [Option.map_some, findSecond, findSource_rename hf, findSecond]
    cases findSource r failed name <;> rfl

/-- Who has the output is asked by name, and whose it is by number. -/
theorem claimOutput_rename (hf : Function.Injective f) (r : Registry) (site : Site) :
    claimOutput (r.rename f) (site.rename f) =
      ((claimOutput r site).1.rename f,
        mapResult (Cause.rename f) (Operand.rename f) (claimOutput r site).2) := by
  have hrole := site.outputRole_rename hf
  unfold claimOutput
  simp only [Site.rename_spec, StageSpec.rename_output, r.find?_rename hf, hrole,
    Site.rename_index]
  cases r.find? site.spec.output with
  | none =>
    simp only [Option.map_none, Registry.fresh_rename, Registry.push_rename]
    rfl
  | some o =>
    obtain ⟨id, name, role, producer, location, contents⟩ := o
    -- an operand that was declared for the stage gets its role, under either name
    have hclaim := r.modify_rename (f := f) id
      ⟨id, name, site.outputRole, producer, location, contents⟩
    simp only [Operand.rename, Option.map_some, Operand.isResolved] at hclaim ⊢
    by_cases htaken : (role == .input || contents.isSome) = true
    · simp only [if_pos htaken]
      rfl
    · simp only [if_neg htaken]
      cases producer with
      | none => exact Prod.ext hclaim rfl
      | some producer =>
        by_cases hown : (producer == site.index) = true
        · simp only [if_pos hown]
          exact Prod.ext hclaim rfl
        · simp only [if_neg hown]
          rfl

theorem ofRegistry_rename (error : RegistryError) :
    Cause.ofRegistry (error.rename f) = (Cause.ofRegistry error).rename f := by
  cases error <;> rfl

/-- A stage whose sources are there. -/
theorem resolveWith_rename (hf : Function.Injective f) (settings : Settings) (r : Registry)
    (site : Site) (early : List Cause) (a : Operand) (b : Option Operand) :
    (resolveWith settings (r.rename f) (site.rename f) (early.map (Cause.rename f)) (a.rename f)
      (b.map (Operand.rename f))).value =
        (resolveWith settings r site early a b).value.rename f := by
  have hfound : early.map (Cause.rename f) ++
      ((shapeFaults site.spec a b).map (ShapeFault.rename f)).map Cause.shape =
        (early ++ (shapeFaults site.spec a b).map Cause.shape).map (Cause.rename f) := by
    simp only [List.map_append, List.map_map]
    rfl
  unfold resolveWith
  simp only [Site.rename_spec, stageShape_rename, formatRequest_rename, shapeFaults_rename,
    claimOutput_rename hf, hfound]
  generalize early ++ (shapeFaults site.spec a b).map Cause.shape = found
  obtain ⟨declared, output⟩ := claimOutput r site
  cases output with
  | error cause =>
    cases (formatRequest settings site.spec a b).plan <;>
      simp [causesOf, Except.mapError, StageOutcome.rename, Cause.rename]
  | ok output =>
    cases (formatRequest settings site.spec a b).plan with
    | error error =>
      simp [causesOf, Except.mapError, StageOutcome.rename, Cause.rename]
    | ok formats =>
      generalize stageShape site.spec a b = shape
      generalize needsWideDest (formatRequest settings site.spec a b) = wide
      generalize huncounted : (if shape.dims.tileCount?.isSome then []
        else [Cause.shape (.tooManyTiles shape.dims)]) = uncounted
      generalize hcrowded : (if settings.batchSize ≤
          accumulatorCapacity settings.platform wide settings.destSync then []
        else [Cause.capacity (.batchTooLarge settings.batchSize
          (accumulatorCapacity settings.platform wide settings.destSync))]) = crowded
      -- what is found last has no names in it
      have hlate : uncounted.map (Cause.rename f) = uncounted ∧
          crowded.map (Cause.rename f) = crowded := by
        rw [← huncounted, ← hcrowded]
        constructor <;> split <;> rfl
      have hcauses : found.map (Cause.rename f) ++ uncounted ++ crowded =
          (found ++ uncounted ++ crowded).map (Cause.rename f) := by
        rw [List.map_append, List.map_append, hlate.1, hlate.2]
      simp only [mapResult_ok, hcauses, List.isEmpty_map]
      by_cases hnone : (found ++ uncounted ++ crowded).isEmpty = true
      · simp only [if_pos hnone, Logged.value_bind, StageSpec.rename_outputFormat,
          Registry.resolve_rename]
        cases (declared.resolve output shape.dims site.spec.outputFormat).value with
        | error error =>
          simp only [mapResult_error, ofRegistry_rename]
          rfl
        | ok resolved =>
          have hids : (b.map (Operand.rename f)).map (·.id) = b.map (·.id) := by
            cases b <;> rfl
          simp only [mapResult_ok, hids]
          by_cases hclamped : shape.dims.tileCount?.getD 0 < settings.batchSize
          · simp only [if_pos hclamped]
            rfl
          · simp only [if_neg hclamped]
            rfl
      · simp only [if_neg hnone]
        rfl

theorem searchCauses_rename {α β : Type} (g : α → β) (x : Except (List Cause) α) :
    searchCauses (mapResult (List.map (Cause.rename f)) g x) =
      (searchCauses x).map (Cause.rename f) := by
  cases x <;> rfl

theorem causesOf_rename {α β : Type} (g : α → β) (x : Except Cause α) :
    causesOf (mapResult (Cause.rename f) g x) = (causesOf x).map (Cause.rename f) := by
  cases x <;> rfl

/-- Any stage, whether its sources are there or not. -/
theorem resolveStage_rename (hf : Function.Injective f) (settings : Settings) (r : Registry)
    (failed : List Nat) (site : Site) :
    (resolveStage settings (r.rename f) failed (site.rename f)).value =
      (resolveStage settings r failed site).value.rename f := by
  have hfirst : findSource (r.rename f) failed (site.rename f).spec.loader.sourceA = _ :=
    findSource_rename hf r failed site.spec.loader.sourceA
  have hsecond : findSecond (r.rename f) failed (site.rename f).spec.loader.sourceB = _ :=
    findSecond_rename hf r failed site.spec.loader.sourceB
  unfold resolveStage
  simp only [hfirst, hsecond, descriptionCauses_rename hf, claimOutput_rename hf]
  generalize descriptionCauses settings.platform site = early
  cases ha : findSource r failed site.spec.loader.sourceA with
  | error causes =>
    simp only [mapResult_error, searchCauses_rename, causesOf_rename, Logged.value_pure]
    simp [StageOutcome.rename, searchCauses]
  | ok a =>
    cases hb : findSecond r failed site.spec.loader.sourceB with
    | error causes =>
      simp only [mapResult_ok, mapResult_error, causesOf_rename, Logged.value_pure]
      simp [StageOutcome.rename, searchCauses]
    | ok b => exact resolveWith_rename hf settings r site early a b

/-- One step. -/
theorem BuildState.step_rename (hf : Function.Injective f) (settings : Settings)
    (state : BuildState) (site : Site) :
    ((state.rename f).step settings (site.rename f)).value =
      (state.step settings site).value.rename f := by
  unfold step
  simp only [Logged.value_bind, rename_registry, rename_failed, resolveStage_rename hf]
  generalize (resolveStage settings state.registry state.failed site).value = outcome
  obtain ⟨registry, causes, stage⟩ := outcome
  cases stage <;> simp [StageOutcome.rename, BuildState.rename, BuildError.rename]

/-- The whole run. -/
theorem BuildState.run_rename (hf : Function.Injective f) (settings : Settings)
    (sites : List Site) (state : BuildState) :
    ((state.rename f).run settings (sites.map (Site.rename f))).value =
      (state.run settings sites).value.rename f := by
  induction sites generalizing state with
  | nil => rfl
  | cons site sites ih =>
    rw [List.map_cons, run, Logged.value_bind, state.step_rename hf, ih, run, Logged.value_bind]

/-! ## Placement -/

/-- What an operand takes up in memory. -/
theorem Operand.extent?_rename (o : Operand) :
    (o.rename f).extent? = o.extent?.map (Extent.rename f) := by
  unfold extent?
  cases hc : o.contents <;> cases hl : o.location.address? <;> simp [hc, hl, Extent.rename]

/-- Clashes are found by address, and reported by name. -/
theorem firstClash_rename (xs : List Extent) :
    firstClash (xs.map (Extent.rename f)) =
      (firstClash xs).map fun (x, y) => (x.rename f, y.rename f) := by
  induction xs with
  | nil => rfl
  | cons x xs ih =>
    cases xs with
    | nil => rfl
    | cons y rest =>
      rw [List.map_cons] at ih
      simp only [List.map_cons, firstClash, ih, Extent.rename_start, Extent.rename_stop]
      split <;> rfl

/-- Gaps are found by address. -/
theorem firstFit_rename (size start : Nat) (xs : List Extent) :
    firstFit size start (xs.map (Extent.rename f)) = firstFit size start xs := by
  induction xs generalizing start with
  | nil => rfl
  | cons x xs ih => simp only [List.map_cons, firstFit, ih, Extent.rename_start, Extent.rename_stop]

/-- Extents are kept sorted by address, and not by name. -/
theorem insertExtent_rename (x : Extent) (xs : List Extent) :
    insertExtent (x.rename f) (xs.map (Extent.rename f)) =
      (insertExtent x xs).map (Extent.rename f) := by
  induction xs with
  | nil => rfl
  | cons y ys ih =>
    simp only [List.map_cons, insertExtent, ih, Extent.rename_start]
    split <;> rfl

theorem map_cons_rename (o : Operand) (placed : Except RegistryError (List Operand)) :
    (mapResult (RegistryError.rename f) (List.map (Operand.rename f)) placed).map (o.rename f :: ·) =
      mapResult (RegistryError.rename f) (List.map (Operand.rename f)) (placed.map (o :: ·)) := by
  cases placed <;> rfl

/-- Operands are placed in the order of their ids, each in the first gap. -/
theorem placeFloating_rename (os : List Operand) (taken : List Extent) :
    (placeFloating (taken.map (Extent.rename f)) (os.map (Operand.rename f))).value =
      mapResult (RegistryError.rename f) (List.map (Operand.rename f))
        (placeFloating taken os).value := by
  induction os generalizing taken with
  | nil => rfl
  | cons o os ih =>
    rw [List.map_cons]
    by_cases hkeep : o.location ≠ .floating ∨ o.contents = none
    · rw [placeFloating_of_keep (o := o.rename f) hkeep, placeFloating_of_keep hkeep, ih,
        map_cons_rename]
    · simp only [ne_eq, not_or, not_not, ← Option.isSome_iff_ne_none] at hkeep
      obtain ⟨hloc, hsome⟩ := hkeep
      obtain ⟨c, hc⟩ := Option.isSome_iff_exists.mp hsome
      have hfit := firstFit_rename (f := f) c.size baseAddress taken
      cases ha : firstFit c.size baseAddress taken with
      | none =>
        rw [placeFloating_of_none hloc hc ha,
          placeFloating_of_none (o := o.rename f) hloc hc (hfit.trans ha)]
        rfl
      | some a =>
        rw [placeFloating_of_place hloc hc ha,
          placeFloating_of_place (o := o.rename f) hloc hc (hfit.trans ha), ← map_cons_rename, ← ih,
          ← insertExtent_rename]
        rfl

/-- Sorting is stable, and only looks at addresses. -/
theorem Registry.extents_rename (r : Registry) :
    (r.rename f).extents = r.extents.map (Extent.rename f) := by
  have hextents : (r.rename f).operands.filterMap Operand.extent? =
      (r.operands.filterMap Operand.extent?).map (Extent.rename f) := by
    rw [rename_operands, List.filterMap_map, List.map_filterMap]
    congr 1
    funext o
    exact o.extent?_rename
  unfold extents
  rw [hextents]
  exact (List.map_mergeSort (f := Extent.rename f) fun _ _ _ _ => rfl).symm

/-- Placement as a whole. -/
theorem Registry.allocate_rename (r : Registry) :
    (r.rename f).allocate.value =
      mapResult (RegistryError.rename f) (Registry.rename f) r.allocate.value := by
  unfold allocate
  rw [extents_rename, firstClash_rename]
  cases firstClash r.extents with
  | some clash => rfl
  | none =>
    simp only [Option.map_none, Logged.value_bind, rename_operands, placeFloating_rename]
    cases (placeFloating r.extents r.operands).value <;> rfl

/-! ## The build -/

/-- The stage to blame is found by the name in the error. -/
theorem placementError_rename (hf : Function.Injective f) (r : Registry) (error : RegistryError) :
    placementError (r.rename f) (error.rename f) = (placementError r error).rename f := by
  have hname : (error.rename f).name = f error.name := by
    cases error <;> rfl
  unfold placementError
  rw [hname, r.find?_rename hf, ofRegistry_rename]
  cases r.find? error.name <;> rfl

/-- Errors are sorted by stage and never by what they say. -/
theorem sortErrors_rename (errors : List BuildError) :
    sortErrors (errors.map (BuildError.rename f)) =
      (sortErrors errors).map (BuildError.rename f) :=
  (List.map_mergeSort (f := BuildError.rename f) fun _ _ _ _ => rfl).symm

/-- **A build on renamed operands is the renamed build.** -/
theorem build_rename (hf : Function.Injective f) (r : Registry) (specs : List StageSpec)
    (settings : Settings) :
    (Pipeline.build (r.rename f) (specs.map (StageSpec.rename f)) settings).value =
      mapResult (List.map (BuildError.rename f)) (Pipeline.rename f)
        (Pipeline.build r specs settings).value := by
  have hstart : (⟨r.rename f, (overallErrors settings specs).map (BuildError.rename f), [], []⟩ :
      BuildState) = BuildState.rename f ⟨r, overallErrors settings specs, [], []⟩ := rfl
  unfold Pipeline.build
  simp only [Logged.value_bind, overallErrors_rename, sites_rename, hstart,
    BuildState.run_rename hf]
  generalize (BuildState.run settings ⟨r, overallErrors settings specs, [], []⟩
    (sites specs)).value = state
  simp only [BuildState.rename_errors, List.isEmpty_map]
  by_cases hnone : state.errors.isEmpty = true
  · simp only [if_pos hnone, Logged.value_bind, BuildState.rename_registry,
      Registry.allocate_rename]
    cases state.registry.allocate.value with
    | error error =>
      simp only [mapResult_error, placementError_rename hf]
      rfl
    | ok placed => rfl
  · simp only [if_neg hnone, sortErrors_rename]
    rfl

end Equations

end TileFusion
