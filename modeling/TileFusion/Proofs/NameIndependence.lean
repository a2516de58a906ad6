import Mathlib.Logic.Equiv.Basic
import TileFusion.Proofs.MemoryLayout
import TileFusion.Proofs.Renaming
import TileFusion.Proofs.Sessions
import TileFusion.Source.Kernel

/-!
# Names do not reach the code

The caller chooses the names of operands, and the text of a kernel is full of identifiers. None of
them may be made of a name, or two descriptions of one pipeline would give different kernels and a
name could smuggle text into one.

> `kernel_ignores_names`: when all declarations and all stages are renamed by an injective function,
> the build succeeds as before, operands keep their ids and addresses, stages keep everything but
> the names in their descriptions, and the kernel is the same text.

`build_rename` compares two builds on registries. Here the renaming starts with what the caller asks
for (`Request`) and ends with the text.
-/

namespace TileFusion

/-! ## What the caller asks for -/

/-- A declaration under another name. -/
def Request.rename (f : String → String) : Request → Request
  | input name dims format address => input (f name) dims format address
  | intermediate name producer address => intermediate (f name) producer address
  | output name producer address => output (f name) producer address

namespace Registry

variable {f : String → String}

/-- An input is refused as before: its name is taken, or it is too large. -/
theorem declareInput_rename (hf : Function.Injective f) (r : Registry) (name : String) (dims : Dims)
    (format : DataFormat) (address : Option Nat) :
    ((r.rename f).declareInput (f name) dims format address).value =
      mapResult (RegistryError.rename f) (fun (r', o) => (r'.rename f, o.rename f))
        (r.declareInput name dims format address).value := by
  unfold declareInput
  rw [contains_rename hf, fresh_rename, Operand.resolve?_rename]
  split
  next => rfl
  next =>
    cases (r.fresh name .input none address).resolve? dims format with
    | none => rfl
    | some o =>
      show Except.ok ((r.rename f).push (o.rename f), o.rename f) = _
      rw [push_rename]
      rfl

/-- An operand that a stage will write is refused only for its name. -/
theorem declareOutput_rename (hf : Function.Injective f) (r : Registry) (role : Role)
    (name : String) (producer : Nat) (address : Option Nat) :
    (r.rename f).declareOutput role (f name) producer address =
      mapResult (RegistryError.rename f) (fun (r', o) => (r'.rename f, o.rename f))
        (r.declareOutput role name producer address) := by
  simp only [declareOutput, contains_rename hf, fresh_rename, push_rename]
  split <;> rfl

theorem answer_rename (hf : Function.Injective f) (r : Registry) (q : Request) :
    (r.rename f).answer (q.rename f) =
      mapResult (RegistryError.rename f) (fun (r', o) => (r'.rename f, o.rename f))
        (r.answer q) := by
  cases q with
  | input name dims format address => exact r.declareInput_rename hf name dims format address
  | intermediate name producer address => exact r.declareOutput_rename hf _ name producer address
  | output name producer address => exact r.declareOutput_rename hf _ name producer address

/-- A request that is refused leaves the registry alone, under any name. -/
theorem serve_rename (hf : Function.Injective f) (r : Registry) (q : Request) :
    (r.rename f).serve (q.rename f) = (r.serve q).rename f := by
  unfold serve
  rw [r.answer_rename hf]
  cases r.answer q <;> rfl

/-- **All declarations of a caller.** -/
theorem ofRequests_rename (hf : Function.Injective f) (requests : List Request) :
    ofRequests (requests.map (Request.rename f)) = (ofRequests requests).rename f := by
  have hrun : ∀ r : Registry, (requests.map (Request.rename f)).foldl serve (r.rename f) =
      (requests.foldl serve r).rename f := by
    induction requests with
    | nil => exact fun _ => rfl
    | cons q requests ih =>
      intro r
      rw [List.map_cons, List.foldl_cons, r.serve_rename hf, ih, List.foldl_cons]
  exact hrun empty

end Registry

/-! ## What is emitted -/

section Emission

variable {f : String → String}

/-- A stage with its operands, as lowering sees it. -/
@[simps] def StageView.rename (f : String → String) (v : StageView) : StageView :=
  { v with
    stage := v.stage.rename f
    bufferA := v.bufferA.rename f
    bufferB := v.bufferB.rename f
    output := v.output.rename f }

namespace StageView

/-- Of the names in a loader only their number counts. -/
theorem unpacking_rename (v : StageView) : (v.rename f).unpacking = v.unpacking := by
  have hlength : (v.rename f).loader.fresh.length = v.loader.fresh.length := by
    simp [loader]
  simp only [unpacking, hlength]
  rfl

theorem unpackSection_rename (v : StageView) : (v.rename f).unpackSection = v.unpackSection := by
  unfold unpackSection
  rw [unpacking_rename]
  rfl

theorem mathSection_rename (v : StageView) : (v.rename f).mathSection = v.mathSection := rfl

theorem packSection_rename (v : StageView) : (v.rename f).packSection = v.packSection := rfl

end StageView

namespace Pipeline

/-- Without names, the two views of a stage are one. The renaming may move the name of the absent
operand, so the views are compared with all names gone. -/
theorem view_rename (p : Pipeline) (s : Stage) :
    ((p.rename f).view (s.rename f)).rename (fun _ => "") = (p.view s).rename fun _ => "" := by
  have hoperand : ∀ id, ((p.rename f).operand id).rename (fun _ => "") =
      (p.operand id).rename fun _ => "" := by
    intro id
    unfold operand Registry.operand?
    rw [rename_registry, Registry.rename_operands, List.getElem?_map]
    cases p.registry.operands[id]? <;> rfl
  have hstage : (s.rename f).rename (fun _ => "") = s.rename fun _ => "" := by
    simp [Stage.rename, StageSpec.rename, Loader.rename, Function.comp_def]
  have hlast : (p.rename f).isLast (s.rename f) = p.isLast s := by
    simp [isLast]
  unfold view StageView.rename
  simp only [hstage, hlast, hoperand]
  rfl

/-- **No name gets into a program.** A section depends on a view, and not on the names in it. -/
theorem lower_rename (p : Pipeline) : (p.rename f).lower = p.lower := by
  have hviews : ∀ {α : Type} (g : StageView → α), (∀ v : StageView, g (v.rename fun _ => "") = g v) →
      ((p.rename f).stages.map (p.rename f).view).map g = (p.stages.map p.view).map g := by
    intro α g hg
    rw [rename_stages, List.map_map, List.map_map, List.map_map]
    apply List.map_congr_left
    intro s _
    show g ((p.rename f).view (s.rename f)) = g (p.view s)
    rw [← hg, view_rename, hg]
  simp only [lower, hviews _ StageView.unpackSection_rename, hviews _ StageView.mathSection_rename,
    hviews _ StageView.packSection_rename]
  rfl

/-- So the text is the same: it is made of the program and the number of stages. -/
theorem emit_rename (p : Pipeline) : (p.rename f).emit = p.emit := by
  unfold emit
  rw [lower_rename, rename_stages, List.length_map]

end Pipeline

end Emission

/-! ## From the caller to the text -/

/-- The pipeline `p'` is `p` with its operands renamed: ids, addresses and all that was settled for
the stages are the same, and so is the text. -/
structure Pipeline.Renames (f : String → String) (p p' : Pipeline) : Prop where
  settings : p'.settings = p.settings
  stages : p'.stages = p.stages.map (Stage.rename f)
  operands : ∀ id, p'.registry.operand? id = (p.registry.operand? id).map (Operand.rename f)
  addresses : ∀ id, (p'.registry.operand? id).map (·.address) =
    (p.registry.operand? id).map (·.address)
  source : p'.emit = p.emit

/-- The renamed pipeline is one, since operands are looked up by id. -/
theorem Pipeline.renames_rename (f : String → String) (p : Pipeline) :
    p.Renames f (p.rename f) := by
  have hoperand : ∀ id, (p.rename f).registry.operand? id =
      (p.registry.operand? id).map (Operand.rename f) := by
    intro id
    simp [Registry.operand?]
  refine ⟨rfl, rfl, hoperand, fun id => ?_, p.emit_rename⟩
  rw [hoperand, Option.map_map]
  rfl

/-- **Names are irrelevant to the code.** The renamed build succeeds exactly when the original does,
with a pipeline that differs in names alone and the same text; and when it fails, the errors differ
in names alone. -/
theorem kernel_ignores_names {f : String → String} (hf : Function.Injective f)
    (requests : List Request) (specs : List StageSpec) (settings : Settings) :
    Registry.ofRequests (requests.map (Request.rename f)) =
        (Registry.ofRequests requests).rename f ∧
      ((∃ p', (Pipeline.build (Registry.ofRequests (requests.map (Request.rename f)))
          (specs.map (StageSpec.rename f)) settings).value = .ok p') ↔
        ∃ p, (Pipeline.build (Registry.ofRequests requests) specs settings).value = .ok p) ∧
      (∀ p p', (Pipeline.build (Registry.ofRequests requests) specs settings).value = .ok p →
        (Pipeline.build (Registry.ofRequests (requests.map (Request.rename f)))
          (specs.map (StageSpec.rename f)) settings).value = .ok p' → p.Renames f p') ∧
      ∀ errors, (Pipeline.build (Registry.ofRequests requests) specs settings).value =
          .error errors →
        (Pipeline.build (Registry.ofRequests (requests.map (Request.rename f)))
          (specs.map (StageSpec.rename f)) settings).value =
            .error (errors.map (BuildError.rename f)) := by
  rw [Registry.ofRequests_rename hf, build_rename hf]
  refine ⟨rfl, ?_, ?_, ?_⟩
  · cases (Pipeline.build (Registry.ofRequests requests) specs settings).value <;> simp
  · intro p p' hp hp'
    rw [hp, mapResult_ok] at hp'
    obtain rfl := Except.ok.inj hp'
    exact p.renames_rename f
  · intro errors herrors
    rw [herrors, mapResult_error]

/-- Two matrices of four tiles. -/
def matrixRequests : List Request :=
  [.input "a" ⟨64, 64⟩ .float16b none, .input "b" ⟨64, 64⟩ .float16b none]

/-- An input and an intermediate result change names, and so their places in the alphabet. -/
theorem kernel_ignores_names_swapped :
    ∃ p p', (Pipeline.build (Registry.ofRequests matrixRequests) fusedSpecs
        fusedSettings).value = .ok p ∧
      (Pipeline.build (Registry.ofRequests
          (matrixRequests.map (Request.rename (Equiv.swap "a" "sum"))))
        (fusedSpecs.map (StageSpec.rename (Equiv.swap "a" "sum"))) fusedSettings).value = .ok p' ∧
      (p.registry.operand? 0).map (·.name) = some "a" ∧
      (p'.registry.operand? 0).map (·.name) = some "sum" ∧ p'.emit = p.emit := by
  obtain ⟨p, hp, hname⟩ := exists_build_of_any (Registry.ofRequests matrixRequests) fusedSpecs
    fusedSettings (fun p => (p.registry.operand? 0).map (·.name) == some "a") (by decide +kernel)
  obtain ⟨-, hiff, hrenames, -⟩ := kernel_ignores_names (Equiv.swap "a" "sum").injective
    matrixRequests fusedSpecs fusedSettings
  obtain ⟨p', hp'⟩ := hiff.mpr ⟨p, hp⟩
  have h := hrenames p p' hp hp'
  rw [beq_iff_eq] at hname
  refine ⟨p, p', hp, hp', hname, ?_, h.source⟩
  obtain ⟨o, ho, hsource⟩ := Option.map_eq_some_iff.mp hname
  rw [h.operands, ho, Option.map_some, Option.map_some, Operand.rename_name, hsource,
    Equiv.swap_apply_left]

end TileFusion
