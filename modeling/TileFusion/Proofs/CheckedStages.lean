import TileFusion.Proofs.ErrorReports
import TileFusion.Proofs.FullReports
import TileFusion.Proofs.Sessions

/-!
# Stages resolved with checks

The build reads operands by id and stages by place, and takes for granted that they are there. Here
it is written once more on a registry that is changed in place (`Catalog`), with every access as one
that may fail: `none` means that the build would have stopped.

> `resolveStage_inStep`: a stage is resolved without stopping, and as the build resolves it.

What carries the proof is that the catalog and the registry stay in step, that a name leads to an
operand that is there, and that an operand whose contents are settled is still the same one after
the output of the stage has been claimed.
-/

namespace TileFusion

/-! ## Arithmetic with checks -/

namespace Word

/-- A sum, unless it does not fit in a word. -/
def add? (x y : Nat) : Option Nat :=
  word? (x + y)

/-- A product, unless it does not fit in a word. -/
def mul? (x y : Nat) : Option Nat :=
  word? (x * y)

/-- A difference, unless it is negative. -/
def sub? (x y : Nat) : Option Nat :=
  if y ≤ x then some (x - y) else none

/-- A quotient, unless the divisor is zero. -/
def div? (x y : Nat) : Option Nat :=
  if y = 0 then none else some (x / y)

/-- A remainder, unless the divisor is zero. -/
def mod? (x y : Nat) : Option Nat :=
  if y = 0 then none else some (x % y)

theorem add?_of_lt {x y : Nat} (h : x + y < wordLimit) : add? x y = some (x + y) :=
  if_pos h

theorem mul?_of_lt {x y : Nat} (h : x * y < wordLimit) : mul? x y = some (x * y) :=
  if_pos h

theorem sub?_of_le {x y : Nat} (h : y ≤ x) : sub? x y = some (x - y) :=
  if_pos h

theorem div?_of_pos {x y : Nat} (h : 0 < y) : div? x y = some (x / y) :=
  if_neg (Nat.ne_of_gt h)

theorem mod?_of_pos {x y : Nat} (h : 0 < y) : mod? x y = some (x % y) :=
  if_neg (Nat.ne_of_gt h)

end Word

/-- Bytes of a tile, computed in words. -/
def DataFormat.tileBytes? (f : DataFormat) : Option Nat := do
  let data ← Word.mul? tileSide tileSide
  let payload ← match f with
    | .tf32 => Word.mul? data 4
    | f => do
      let bits ← Word.mul? data f.bits
      Word.div? bits 8
  let shared ←
    if f.isBlockFloat then Word.div? data 16
    else if f.isMicroScaling then Word.div? data 32
    else some 0
  Word.add? payload shared

theorem DataFormat.tileBytes?_eq (f : DataFormat) : f.tileBytes? = some f.tileBytes := by
  cases f <;> rfl

/-! ## Sites -/

/-- The stage in front of a place; `none` if it is not there. -/
def previousOf? (specs : List StageSpec) (index : Nat) : Option (Option StageSpec) :=
  if index = 0 then some none
  else (Word.sub? index 1).bind fun before => (specs[before]?).map some

/-- The stages behind a place; `none` if the list ends before. -/
def laterOf? (specs : List StageSpec) (index : Nat) : Option (List StageSpec) :=
  if index + 1 ≤ specs.length then some (specs.drop (index + 1)) else none

/-- The stage of a place among its neighbours; `none` if a place is read that is not there. -/
def siteOf? (specs : List StageSpec) (index : Nat) : Option Site := do
  let spec ← specs[index]?
  let previous ← previousOf? specs index
  let later ← laterOf? specs index
  some ⟨index, previous, spec, later⟩

theorem siteOf?_eq {specs : List StageSpec} {i : Nat} {s : StageSpec} (h : specs[i]? = some s) :
    siteOf? specs i = some (siteAt specs i s) := by
  have hi := (List.getElem?_eq_some_iff.mp h).1
  have hlater : laterOf? specs i = some (specs.drop (i + 1)) := if_pos hi
  unfold siteOf? siteAt
  rw [h, hlater]
  cases i with
  | zero => rfl
  | succ j =>
    have hj : j < specs.length := Nat.lt_of_succ_lt hi
    simp [previousOf?, Word.sub?, List.getElem?_eq_getElem hj]

namespace Catalog

variable {c : Catalog} {r : Registry}

/-! ## Reading -/

/-- The operand of a name; `none` if its place does not exist. -/
def get (c : Catalog) (name : String) : Option (Except RegistryError Operand) :=
  match c.idOf name with
  | .error e => some (.error e)
  | .ok id => (c.operands[id]?).map .ok

theorem InStep.get_eq (h : InStep c r) (hr : r.WellFormed) (name : String) :
    c.get name = some (r.get name) := by
  unfold get idOf Registry.get
  rw [h.index_eq, h.operands_eq]
  cases hf : r.find? name with
  | none => rfl
  | some o =>
    have ho : r.operands[o.id]? = some o := hr.operand?_id (Registry.mem_of_find? hf)
    simp [ho]

theorem InStep.operand?_eq (h : InStep c r) (hr : r.WellFormed) {o : Operand}
    (ho : o ∈ r.operands) : c.operands[o.id]? = some o := by
  rw [h.operands_eq]
  exact hr.operand?_id ho

/-- Replacing the operand of a place keeps a catalog in step, as long as its name stays. -/
theorem InStep.set (h : InStep c r) (hr : r.WellFormed) {o o' : Operand} (ho : o ∈ r.operands)
    (hname : o'.name = o.name) (hid : o'.id = o.id) :
    InStep { c with operands := c.operands.set o.id o' } (r.modify o.id fun _ => o') := by
  constructor
  · show c.operands.set o.id o' = r.operands.modify o.id fun _ => o'
    rw [h.operands_eq]
    refine List.ext_getElem? fun i => ?_
    rw [List.getElem?_set, List.getElem?_modify]
    by_cases hi : o.id = i
    · subst hi
      have hat : r.operands[o.id]? = some o := hr.operand?_id ho
      simp [(List.getElem?_eq_some_iff.mp hat).1]
    · simp [hi]
  · intro name
    show c.index name = _
    rw [h.index_eq, Registry.find?_modify hr ho hname]
    by_cases hn : name = o.name
    · rw [if_pos hn, hn, hr.find?_name ho]
      simp [hid]
    · rw [if_neg hn]

/-! ## Sources -/

/-- The id of the operand that a stage reads under a name. -/
def findSource (c : Catalog) (failed : List Nat) (name : String) :
    Option (Except (List Cause) Nat) := do
  let found ← c.get name
  match found with
  | .error e => some (.error [.ofRegistry e])
  | .ok o =>
    if o.isResolved then some (.ok o.id)
    else if o.producer.any (failed.contains ·) then some (.error [])
    else some (.error [.fusion (.readTooEarly name o.producer)])

/-- The id of the second source, when the stage names one. -/
def findSecond (c : Catalog) (failed : List Nat) :
    Option String → Option (Except (List Cause) (Option Nat))
  | none => some (.ok none)
  | some name => (c.findSource failed name).map (Except.map some)

theorem InStep.findSource_eq (h : InStep c r) (hr : r.WellFormed) (failed : List Nat)
    (name : String) :
    c.findSource failed name = some ((TileFusion.findSource r failed name).map (·.id)) := by
  unfold findSource TileFusion.findSource
  rw [h.get_eq hr, Registry.get]
  cases r.find? name with
  | none => rfl
  | some o =>
    simp only [Option.bind_eq_bind, Option.bind_some]
    split
    next => rfl
    next => split <;> rfl

theorem InStep.findSecond_eq (h : InStep c r) (hr : r.WellFormed) (failed : List Nat)
    (name : Option String) :
    c.findSecond failed name =
      some ((TileFusion.findSecond r failed name).map (Option.map (·.id))) := by
  cases name with
  | none => rfl
  | some name =>
    rw [findSecond, TileFusion.findSecond, h.findSource_eq hr]
    cases TileFusion.findSource r failed name <;> rfl

/-! ## Outputs -/

/-- Gives the operand of a place another role; `none` if there is no such place. -/
def setRole (c : Catalog) (id : Nat) (role : Role) : Option Catalog :=
  (c.operands[id]?).map fun o => { c with operands := c.operands.set id { o with role := role } }

/-- Declares the output of a stage, or takes over a declaration that was made for it. -/
def claimOutput (c : Catalog) (site : Site) : Option (Catalog × Except Cause Nat) := do
  let name := site.spec.output
  let found ← c.get name
  match found with
  | .error _ => do
    let (c', reply) ← c.declareOutput site.outputRole name site.index none
    some (c', (reply.map (·.id)).mapError .ofRegistry)
  | .ok o =>
    if o.role == .input || o.isResolved then some (c, .error (.duplicateOperand name))
    else
      match o.producer with
      | some producer =>
        if producer == site.index then do
          let c' ← c.setRole o.id site.outputRole
          some (c', .ok o.id)
        else some (c, .error (.fusion (.outputOfOther name producer)))
      | none => do
        let c' ← c.setRole o.id site.outputRole
        some (c', .ok o.id)

theorem InStep.setRole_eq (h : InStep c r) (hr : r.WellFormed) {o : Operand}
    (ho : o ∈ r.operands) (role : Role) :
    ∃ c', c.setRole o.id role = some c' ∧
      InStep c' (r.modify o.id fun _ => { o with role := role }) := by
  refine ⟨_, ?_, h.set hr ho rfl rfl⟩
  rw [setRole, h.operand?_eq hr ho]
  rfl

/-- The output is claimed as in the registry. -/
theorem InStep.claimOutput_eq (h : InStep c r) (hr : r.WellFormed) (site : Site) :
    ∃ c', c.claimOutput site = some (c', (TileFusion.claimOutput r site).2.map (·.id)) ∧
      InStep c' (TileFusion.claimOutput r site).1 := by
  unfold claimOutput TileFusion.claimOutput
  simp only [h.get_eq hr, Registry.get]
  cases hf : r.find? site.spec.output with
  | none =>
    have hdeclare := h.declareOutput_of_free (Registry.contains_eq_false_iff.mpr hf)
      site.outputRole site.index none
    simp only [Option.bind_eq_bind, Option.bind_some, hdeclare]
    exact ⟨_, rfl, h.push rfl hf⟩
  | some o =>
    obtain ⟨c', hset, hstep⟩ := h.setRole_eq hr (Registry.mem_of_find? hf) site.outputRole
    simp only [Option.bind_eq_bind, Option.bind_some, hset]
    by_cases htaken : (o.role == .input || o.isResolved) = true
    · simp only [if_pos htaken]
      exact ⟨c, rfl, h⟩
    · simp only [if_neg htaken]
      cases hproducer : o.producer with
      | none =>
        rw [hproducer] at hstep
        exact ⟨c', rfl, hstep⟩
      | some producer =>
        rw [hproducer] at hstep
        by_cases hp : (producer == site.index) = true
        · simp only [if_pos hp]
          exact ⟨c', rfl, hstep⟩
        · simp only [if_neg hp]
          exact ⟨c, rfl, h⟩

end Catalog

/-- What is settled stays as it is when an output is claimed. -/
theorem Settled.claimOutput {r : Registry} (hr : r.WellFormed) (site : Site) {name : String}
    {o : Operand} (h : Settled r name o) : Settled (claimOutput r site).1 name o := by
  refine ⟨?_, h.2⟩
  obtain heq | ⟨hf, heq⟩ | ⟨x, hf, hpend, -, heq⟩ := claimOutput_cases r site <;> rw [heq]
  · exact h.1
  · rw [Registry.find?_push_of_none hf, if_neg]
    · exact h.1
    · intro hn
      have hname : name = site.spec.output := hn
      rw [← hname, h.1] at hf
      simp at hf
  · have hkeep : ({ x with role := site.outputRole } : Operand).name = x.name := rfl
    rw [Registry.find?_modify hr (Registry.mem_of_find? hf) hkeep, if_neg]
    · exact h.1
    · intro hn
      have hfound := h.1
      have hres := h.2
      rw [hn, Registry.name_of_find? hf, hf] at hfound
      rw [← Option.some.inj hfound, hpend] at hres
      simp at hres

theorem SettledSecond.claimOutput {r : Registry} (hr : r.WellFormed) (site : Site)
    {name : Option String} {b : Option Operand} (h : SettledSecond r name b) :
    SettledSecond (TileFusion.claimOutput r site).1 name b := by
  cases name with
  | none => exact h
  | some name =>
    obtain ⟨o, hb, ho⟩ := h
    exact ⟨o, hb, ho.claimOutput hr site⟩

/-- The operand that is claimed is in the registry. -/
theorem mem_of_claimOutput {r : Registry} (hr : r.WellFormed) {site : Site} {o : Operand}
    (h : (claimOutput r site).2 = .ok o) : o ∈ (claimOutput r site).1.operands := by
  unfold claimOutput at h ⊢
  cases hf : r.find? site.spec.output with
  | none =>
    simp only [hf] at h ⊢
    rw [← Except.ok.inj h]
    exact List.mem_append_right _ (List.mem_singleton.mpr rfl)
  | some x =>
    have hx := Registry.mem_of_find? hf
    have hnew : ({ x with role := site.outputRole } : Operand) ∈
        (r.modify x.id fun _ => { x with role := site.outputRole }).operands := by
      rw [Registry.operands_modify hr hx]
      exact List.mem_map.mpr ⟨x, hx, if_pos rfl⟩
    simp only [hf] at h ⊢
    by_cases htaken : (x.role == .input || x.isResolved) = true
    · simp [htaken] at h
    · simp only [if_neg htaken] at h ⊢
      cases hproducer : x.producer with
      | none =>
        simp only [hproducer] at h hnew ⊢
        rw [← Except.ok.inj h]
        exact hnew
      | some producer =>
        by_cases hp : (producer == site.index) = true
        · simp only [hproducer, if_pos hp] at h hnew ⊢
          rw [← Except.ok.inj h]
          exact hnew
        · simp [hproducer, hp] at h

/-! ## One stage -/

namespace Catalog

/-- The operand of a second source; `none` if its place does not exist. -/
def second? (c : Catalog) : Option Nat → Option (Option Operand)
  | none => some none
  | some id => (c.operands[id]?).map some

/-- What resolving a stage leaves behind. -/
structure Outcome where
  /-- The catalog for the stages behind. -/
  catalog : Catalog
  /-- What is wrong with the stage. -/
  causes : List Cause
  /-- The stage, if it could be resolved. -/
  stage : Option Stage

/-- The outcomes on a catalog and on a registry are the same. -/
structure Outcome.InStep (x : Outcome) (y : StageOutcome) : Prop where
  catalog : x.catalog.InStep y.registry
  causes_eq : x.causes = y.causes
  stage_eq : x.stage = y.stage

/-- Settles the contents of a claimed output, and records the stage. -/
def settle (settings : Settings) (c : Catalog) (site : Site) (shape : StageShape)
    (formats : FormatPlan) (wide : Bool) (a : Nat) (b : Option Nat) (output : Nat) :
    Option Outcome := do
  let settled ← c.resolve output shape.dims site.spec.outputFormat
  match settled with
  | .error error => some ⟨c, [.ofRegistry error], none⟩
  | .ok c' =>
    some ⟨c', [], some {
      index := site.index
      spec := site.spec
      sourceA := a
      sourceB := b
      output := output
      formats := formats
      batchSize := min settings.batchSize (shape.dims.tileCount?.getD 0)
      capacity := accumulatorCapacity settings.platform wide settings.destSync
      wideDest := wide
      innerTiles := shape.innerTiles }⟩

/-- Resolves a stage whose sources have been found. They are read by their ids, for their shapes
before the output is claimed and for their formats afterwards. -/
def resolveWith (settings : Settings) (c : Catalog) (site : Site) (early : List Cause) (a : Nat)
    (b : Option Nat) : Option Outcome := do
  let first ← c.operands[a]?
  let second ← c.second? b
  let shape := stageShape site.spec first second
  let found := early ++ (shapeFaults site.spec first second).map .shape
  let (c', output) ← c.claimOutput site
  let first' ← c'.operands[a]?
  let second' ← c'.second? b
  let request := formatRequest settings site.spec first' second'
  match output, request.plan with
  | .ok output, .ok formats =>
    let wide := needsWideDest request
    let capacity := accumulatorCapacity settings.platform wide settings.destSync
    let causes := found ++
      (if shape.dims.tileCount?.isSome then [] else [.shape (.tooManyTiles shape.dims)]) ++
      (if settings.batchSize ≤ capacity then []
        else [.capacity (.batchTooLarge settings.batchSize capacity)])
    if causes.isEmpty then c'.settle settings site shape formats wide a b output
    else some ⟨c', causes, none⟩
  | output, plan => some ⟨c', found ++ causesOf output ++ causesOf (plan.mapError .format), none⟩

/-- Resolves the stage of a place. -/
def resolveStage (settings : Settings) (specs : List StageSpec) (c : Catalog) (failed : List Nat)
    (index : Nat) : Option Outcome := do
  let site ← siteOf? specs index
  let early := descriptionCauses settings.platform site
  let a ← c.findSource failed site.spec.loader.sourceA
  let b ← c.findSecond failed site.spec.loader.sourceB
  match a, b with
  | .ok a, .ok b => c.resolveWith settings site early a b
  | a, b => do
    let (c', output) ← c.claimOutput site
    some ⟨c', early ++ searchCauses a ++ searchCauses b ++ causesOf output, none⟩

variable {c : Catalog} {r : Registry}

theorem InStep.resolve_eq (h : InStep c r) (hr : r.WellFormed) {o : Operand}
    (ho : o ∈ r.operands) (dims : Dims) (format : DataFormat) :
    (∃ e, c.resolve o.id dims format = some (.error e) ∧
      (r.resolve o dims format).value = .error e) ∨
    ∃ c' r', c.resolve o.id dims format = some (.ok c') ∧
      (r.resolve o dims format).value = .ok r' ∧ InStep c' r' := by
  unfold resolve Registry.resolve
  rw [h.operand?_eq hr ho]
  cases hres : o.resolve? dims format with
  | none => exact Or.inl ⟨_, by simp [hres], rfl⟩
  | some o' =>
    obtain ⟨contents, -, -, rfl⟩ := Operand.resolve?_eq_some_iff.mp hres
    exact Or.inr ⟨_, _, by simp [hres], rfl, h.set hr ho rfl rfl⟩

theorem InStep.second?_eq (h : InStep c r) (hr : r.WellFormed) {name : Option String}
    {b : Option Operand} (hb : SettledSecond r name b) : c.second? (b.map (·.id)) = some b := by
  cases name with
  | none =>
    cases hb
    rfl
  | some name =>
    obtain ⟨o, rfl, ho⟩ := hb
    show (c.operands[o.id]?).map some = _
    rw [h.operand?_eq hr (Registry.mem_of_find? ho.1)]
    rfl

/-- Outcomes that agree on both sides of a test agree. -/
theorem Outcome.inStep_ite {p : Prop} [Decidable p] {f g : Option Outcome}
    {f' g' : Logged StageOutcome} (ht : p → ∃ x, f = some x ∧ x.InStep f'.value)
    (he : ¬p → ∃ x, g = some x ∧ x.InStep g'.value) :
    ∃ x, (if p then f else g) = some x ∧ x.InStep (if p then f' else g').value := by
  split
  next h => exact ht h
  next h => exact he h

/-- The sources are still where they were when the output has been claimed. -/
theorem InStep.resolveWith_eq (h : InStep c r) (hr : r.WellFormed) (settings : Settings)
    (site : Site) (early : List Cause) {a : Operand} {b : Option Operand}
    (ha : Settled r site.spec.loader.sourceA a)
    (hb : SettledSecond r site.spec.loader.sourceB b) :
    ∃ x, c.resolveWith settings site early a.id (b.map (·.id)) = some x ∧
      x.InStep (TileFusion.resolveWith settings r site early a b).value := by
  obtain ⟨c', hclaim, h'⟩ := h.claimOutput_eq hr site
  have hr' := wellFormed_claimOutput hr site
  have ha' := Registry.mem_of_find? (ha.claimOutput hr site).1
  unfold resolveWith TileFusion.resolveWith
  simp only [h.operand?_eq hr (Registry.mem_of_find? ha.1), h.second?_eq hr hb, hclaim,
    h'.operand?_eq hr' ha', h'.second?_eq hr' (hb.claimOutput hr site), Option.bind_eq_bind,
    Option.bind_some]
  cases hout : (TileFusion.claimOutput r site).2 with
  | error e =>
    exact ⟨_, rfl, h', rfl, rfl⟩
  | ok output =>
    cases hplan : (formatRequest settings site.spec a b).plan with
    | error e => exact ⟨_, rfl, h', rfl, rfl⟩
    | ok formats =>
      refine Outcome.inStep_ite (fun _ => ?_) fun _ => ⟨_, rfl, h', rfl, rfl⟩
      obtain ⟨e, hc, hreg⟩ | ⟨settled, r', hc, hreg, hsettled⟩ :=
        h'.resolve_eq hr' (mem_of_claimOutput hr hout) (stageShape site.spec a b).dims
          site.spec.outputFormat
      · refine ⟨⟨c', [.ofRegistry e], none⟩, by simp [settle, hc], ?_⟩
        rw [Logged.value_bind, hreg]
        exact ⟨h', rfl, rfl⟩
      · refine ⟨_, by rw [settle, hc]; rfl, ?_⟩
        rw [Logged.value_bind, hreg]
        dsimp only
        split <;> exact ⟨hsettled, rfl, rfl⟩

/-- **One stage.** No operand is missed, and the outcome is that of the registry. -/
theorem InStep.resolveStage_inStep (h : InStep c r) (hr : r.WellFormed) (settings : Settings)
    {specs : List StageSpec} (failed : List Nat) {i : Nat} {s : StageSpec}
    (hs : specs[i]? = some s) :
    ∃ x, c.resolveStage settings specs failed i = some x ∧
      x.InStep (TileFusion.resolveStage settings r failed (siteAt specs i s)).value := by
  obtain ⟨c', hclaim, h'⟩ := h.claimOutput_eq hr (siteAt specs i s)
  have hcauses := causesOf_map (·.id) (TileFusion.claimOutput r (siteAt specs i s)).2
  unfold resolveStage TileFusion.resolveStage
  simp only [siteOf?_eq hs, h.findSource_eq hr, h.findSecond_eq hr, hclaim, Option.bind_eq_bind,
    Option.bind_some]
  cases ha : TileFusion.findSource r failed (siteAt specs i s).spec.loader.sourceA with
  | error e =>
    cases TileFusion.findSecond r failed (siteAt specs i s).spec.loader.sourceB <;>
      exact ⟨_, rfl, h', congrArg _ hcauses, rfl⟩
  | ok a =>
    cases hb : TileFusion.findSecond r failed (siteAt specs i s).spec.loader.sourceB with
    | error e => exact ⟨_, rfl, h', congrArg _ hcauses, rfl⟩
    | ok b =>
      exact h.resolveWith_eq hr settings (siteAt specs i s) _ (findSource_eq_ok_iff.mp ha)
        (findSecond_eq_ok_iff.mp hb)

end Catalog

end TileFusion
