import TileFusion.Log
import TileFusion.Operand

/-!
# The operand registry

A registry holds the operands of a pipeline in declaration order. The place of an operand in that
order is its id, and its name is its own. A call that fails leaves the caller with the registry it
had.
-/

namespace TileFusion

/-- Why a registry refuses a request. -/
inductive RegistryError where
  | duplicate (name : String)
  | unknown (name : String)
  /-- The buffer cannot be addressed. -/
  | tooLarge (name : String)
  /-- Two buffers at requested addresses share memory. -/
  | overlap (name other : String)
  deriving DecidableEq, Repr

namespace RegistryError

/-- The operand that the failure is about. -/
def name : RegistryError → String
  | duplicate name | unknown name | tooLarge name | overlap name _ => name

/-- Wording of the failure. -/
def message : RegistryError → String
  | duplicate name => s!"operand '{name}' is already declared"
  | unknown name => s!"operand '{name}' is not declared"
  | tooLarge name => s!"operand '{name}' does not fit in the L1 address space"
  | overlap name other => s!"operand '{name}' overlaps operand '{other}'"

end RegistryError

/-- Every operand of a pipeline, in declaration order. -/
structure Registry where
  /-- The operands; each one's id is its place. -/
  operands : List Operand
  deriving DecidableEq, Repr

namespace Registry

/-- The registry that holds nothing. -/
def empty : Registry := ⟨[]⟩

/-- Number of operands. -/
def size (r : Registry) : Nat :=
  r.operands.length

/-- The operand of a name. -/
def find? (r : Registry) (name : String) : Option Operand :=
  r.operands.find? fun o => o.name == name

theorem name_of_find? {r : Registry} {name : String} {o : Operand} (h : r.find? name = some o) :
    o.name = name := by
  simpa using List.find?_some h

/-- Whether a name is taken. -/
def contains (r : Registry) (name : String) : Bool :=
  (r.find? name).isSome

/-- The operand of a name, or the failure to find one. -/
def get (r : Registry) (name : String) : Except RegistryError Operand :=
  match r.find? name with
  | some o => .ok o
  | none => .error (.unknown name)

/-- The operand of an id. -/
def operand? (r : Registry) (id : Nat) : Option Operand :=
  r.operands[id]?

/-- The operands of a role, in declaration order. -/
def withRole (r : Registry) (role : Role) : List Operand :=
  r.operands.filter fun o => o.role == role

/-- The operand that a declaration adds. -/
def fresh (r : Registry) (name : String) (role : Role) (producer address : Option Nat) : Operand :=
  { id := r.size
    name := name
    role := role
    producer := producer
    location := .ofRequest address
    contents := none }

/-- The registry with one more operand. -/
def push (r : Registry) (o : Operand) : Registry :=
  ⟨r.operands ++ [o]⟩

@[simp] theorem size_push (r : Registry) (o : Operand) : (r.push o).size = r.size + 1 := by
  simp [size, push]

/-- A new operand is found under its name unless that was taken before. -/
theorem find?_push (r : Registry) (o : Operand) (name : String) :
    (r.push o).find? name = (r.find? name).or (if o.name = name then some o else none) := by
  by_cases h : o.name = name <;> simp [find?, push, List.find?_append, h]

/-- The registry with the operand of an id changed. -/
def modify (r : Registry) (id : Nat) (f : Operand → Operand) : Registry :=
  ⟨r.operands.modify id f⟩

/-- Declares a buffer that the stage `producer` writes; its contents are settled by a build. -/
def declareOutput (r : Registry) (role : Role) (name : String) (producer : Nat)
    (address : Option Nat) : Except RegistryError (Registry × Operand) :=
  if r.contains name then .error (.duplicate name)
  else
    let o := r.fresh name role (some producer) address
    .ok (r.push o, o)

/-- The log entry for settled contents. -/
def resolvedText (o : Operand) : String :=
  s!"operand '{o.name}': {o.tiles} tiles of {o.format.name} ({o.size} bytes)"

/-- Declares a buffer whose contents the caller provides. -/
def declareInput (r : Registry) (name : String) (dims : Dims) (format : DataFormat)
    (address : Option Nat) : Logged (Except RegistryError (Registry × Operand)) :=
  if r.contains name then pure (.error (.duplicate name))
  else
    match (r.fresh name .input none address).resolve? dims format with
    | none => pure (.error (.tooLarge name))
    | some o => do
      Logged.note .trace (resolvedText o)
      pure (.ok (r.push o, o))

/-- Settles the contents of the operand `o` of the registry. -/
def resolve (r : Registry) (o : Operand) (dims : Dims) (format : DataFormat) :
    Logged (Except RegistryError Registry) :=
  match o.resolve? dims format with
  | none => pure (.error (.tooLarge o.name))
  | some o' => do
    Logged.note .trace (resolvedText o')
    pure (.ok (r.modify o.id fun _ => o'))

end Registry

end TileFusion
