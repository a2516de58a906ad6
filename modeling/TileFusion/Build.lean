import TileFusion.Build.Resolve

/-!
# Building a pipeline

`Pipeline.build` resolves every stage, in order, and reports all that is wrong at once. When nothing
is, the operands that have no address yet are placed. The registry that the caller holds is never
changed, so the same build can be run again.
-/

namespace TileFusion

/-- How far a build has come. -/
structure BuildState where
  /-- The registry as the stages so far have left it. -/
  registry : Registry
  errors : List BuildError
  /-- The stages that could not be resolved. -/
  failed : List Nat
  stages : List Stage

/-- The log entry for a resolved stage. -/
def stageText (s : Stage) : String :=
  let f := s.formats
  s!"stage {s.index}: {f.loadTarget.name} -> {f.compute.name} -> {f.storeSource.name} " ++
    s!"({f.loadSource.name} -> {f.storeTarget.name}), capacity {s.capacity}, batch {s.batchSize}"

/-- Resolves one more stage. -/
def BuildState.step (settings : Settings) (state : BuildState) (site : Site) :
    Logged BuildState := do
  let outcome ← resolveStage settings state.registry state.failed site
  let errors := state.errors ++ outcome.causes.map fun cause => ⟨site.index, cause⟩
  match outcome.stage with
  | none => pure ⟨outcome.registry, errors, state.failed ++ [site.index], state.stages⟩
  | some stage => do
    Logged.note .debug (stageText stage)
    pure ⟨outcome.registry, errors, state.failed, state.stages ++ [stage]⟩

/-- Resolves stages in order. -/
def BuildState.run (settings : Settings) (state : BuildState) : List Site → Logged BuildState
  | [] => pure state
  | site :: rest => do
    let next ← state.step settings site
    next.run settings rest

/-- Stages in a row are resolved one after the other. -/
theorem BuildState.value_run_append (settings : Settings) (state : BuildState)
    (xs ys : List Site) :
    (state.run settings (xs ++ ys)).value =
      ((state.run settings xs).value.run settings ys).value := by
  induction xs generalizing state with
  | nil => rfl
  | cons x xs ih => exact ih _

/-- The error that a failed placement is reported as: it belongs to the stage that writes the
operand, or to the first one. -/
def placementError (registry : Registry) (error : RegistryError) : BuildError :=
  ⟨((registry.find? error.name).bind (·.producer)).getD 0, .ofRegistry error⟩

/-- Errors in stage order; those of one stage stay in the order in which they were found. -/
def sortErrors (errors : List BuildError) : List BuildError :=
  errors.mergeSort fun x y => x.stage ≤ y.stage

/-- Builds a pipeline on top of declared operands. -/
def Pipeline.build (registry : Registry) (specs : List StageSpec) (settings : Settings) :
    Logged (Except (List BuildError) Pipeline) := do
  let start : BuildState := ⟨registry, overallErrors settings specs, [], []⟩
  let state ← start.run settings (sites specs)
  if state.errors.isEmpty then
    match ← state.registry.allocate with
    | .error error => pure (.error [placementError state.registry error])
    | .ok placed =>
      Logged.note .info
        (s!"built {state.stages.length} stage pipeline for {settings.platform.name} " ++
          s!"({placed.size} operands)")
      pure (.ok ⟨settings, state.stages, placed⟩)
  else pure (.error (sortErrors state.errors))

end TileFusion
