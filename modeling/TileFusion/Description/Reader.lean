import TileFusion.Description.Schema
import TileFusion.Toml.Document

/-!
# Reading descriptions

A description file is a TOML document. `Description.read` tells a text that is no such document from
one that is but does not describe a pipeline.

Values may be written in more than one way. An entry is a table with a key per field, or an array
with the fields in their fixed order; a choice is its name, or a table with that name as its only
key and nothing in it.
-/

namespace TileFusion

open Toml (Value)

/-- Reads a value into a domain type. -/
abbrev Decoder (α : Type) := Value → Option α

namespace Decoder

variable {α : Type}

/-- A text. -/
def text : Decoder String
  | .string s => some s
  | _ => none

/-- A truth value. -/
def truth : Decoder Bool
  | .boolean b => some b
  | _ => none

/-- A device word. -/
def word : Decoder Nat
  | .integer n => if 0 ≤ n then word? n.toNat else none
  | _ => none

/-- A 32-bit number; a longer one is rounded. -/
def scalar : Decoder (Scalar binary32)
  | .float x => some (x.convert binary32)
  | .integer n => some (.ofInt binary32 n)
  | _ => none

/-- A choice, by its name. -/
def choice [Named α] : Decoder α
  | .string name => Named.ofName? name
  | .table _ [(name, .table _ [])] => Named.ofName? name
  | .table _ [(name, .array _ [])] => Named.ofName? name
  | _ => none

/-- Rows and columns; what follows them is ignored. -/
def dims : Decoder Dims
  | .array _ (rows :: cols :: _) => do return ⟨← word rows, ← word cols⟩
  | _ => none

/-- A list of entries. -/
def list (item : Decoder α) : Decoder (List α)
  | .array _ items => items.mapM item
  | _ => none

end Decoder

/-- The fields of an entry as they were written. -/
structure Record where
  /-- The fields came in their fixed order, without names. -/
  positional : Bool
  /-- Values by field name. -/
  fields : Toml.Entries

namespace Record

variable {α : Type}

/-- The fields of a table; it may have no other key than the names. -/
def ofEntries? (names : List String) (entries : Toml.Entries) : Option Record :=
  if entries.all fun entry => names.contains entry.1 then some ⟨false, entries⟩ else none

/-- The fields of an entry. Items of an array beyond the last field are ignored. -/
def ofValue? (names : List String) : Value → Option Record
  | .table _ entries => ofEntries? names entries
  | .array _ items => some ⟨true, names.zip items⟩
  | _ => none

/-- A field that has to be there. -/
def required (r : Record) (name : String) (decode : Decoder α) : Option α :=
  (r.fields.lookup name).bind decode

/-- A field that a table may leave out. -/
def optional (r : Record) (name : String) (decode : Decoder α) : Option (Option α) :=
  match r.fields.lookup name with
  | some value => (decode value).map some
  | none => if r.positional then none else some none

/-- A field with a default. -/
def withDefault (r : Record) (name : String) (fallback : α) (decode : Decoder α) : Option α :=
  match r.fields.lookup name with
  | some value => decode value
  | none => some fallback

end Record

open Decoder

/-- Reads the settings of the pipeline. -/
def PipelineEntry.decode : Decoder PipelineEntry := fun value => do
  let r ← Record.ofValue? ["platform", "dest_acc", "batch_size", "dest_sync"] value
  return {
    platform := ← r.optional "platform" choice
    accumulate := ← r.withDefault "dest_acc" false truth
    batchSize := ← r.withDefault "batch_size" 1 word
    destSync := ← r.withDefault "dest_sync" .half choice }

/-- Reads an input. -/
def InputEntry.decode : Decoder InputEntry := fun value => do
  let r ← Record.ofValue? ["name", "dims", "format", "address"] value
  return {
    name := ← r.required "name" text
    dims := ← r.required "dims" Decoder.dims
    format := ← r.required "format" choice
    address := ← r.optional "address" word }

/-- Reads a nonlinear unit. -/
def NonlinearEntry.decode : Decoder NonlinearEntry := fun value => do
  let r ← Record.ofValue?
    ["kind", "op", "iterations", "approximate", "fill_value", "src0", "src1", "dst"] value
  return {
    kind := ← r.required "kind" choice
    op := ← r.required "op" text
    iterations := ← r.withDefault "iterations" Nonlinear.defaultIterations word
    approximate := ← r.withDefault "approximate" false truth
    fill := ← r.optional "fill_value" scalar
    first := ← r.optional "src0" word
    second := ← r.optional "src1" word
    result := ← r.optional "dst" word }

/-- Reads a stage. -/
def StageEntry.decode : Decoder StageEntry := fun value => do
  let r ← Record.ofValue?
    ["src_a", "src_b", "output", "output_format", "output_address", "loader", "broadcast", "reuse",
      "transpose_faces", "transpose_within_face", "arith", "op", "reduce_dim", "pool", "nonlinear",
      "math_fidelity", "unpack_to_dest"] value
  return {
    sourceA := ← r.required "src_a" text
    sourceB := ← r.optional "src_b" text
    output := ← r.required "output" text
    outputFormat := ← r.required "output_format" choice
    outputAddress := ← r.optional "output_address" word
    loader := ← r.withDefault "loader" .direct choice
    broadcast := ← r.optional "broadcast" choice
    reuse := ← r.withDefault "reuse" .none choice
    transposeFaces := ← r.withDefault "transpose_faces" false truth
    transposeWithinFace := ← r.withDefault "transpose_within_face" false truth
    arithmetic := ← r.required "arith" choice
    op := ← r.optional "op" choice
    reduceDim := ← r.optional "reduce_dim" choice
    pool := ← r.optional "pool" choice
    nonlinear := ← r.withDefault "nonlinear" [] (list NonlinearEntry.decode)
    fidelity := ← r.withDefault "math_fidelity" .lofi choice
    unpackToDest := ← r.withDefault "unpack_to_dest" false truth }

/-- Reads a description out of a document. -/
def Description.decode (entries : Toml.Entries) : Option Description := do
  let r ← Record.ofEntries? ["pipeline", "inputs", "stages"] entries
  return {
    pipeline := ← r.withDefault "pipeline" .default PipelineEntry.decode
    inputs := ← r.withDefault "inputs" [] (list InputEntry.decode)
    stages := ← r.withDefault "stages" [] (list StageEntry.decode) }

/-- Why a text is not a description. -/
inductive ReadError where
  /-- It is not a TOML document. -/
  | malformed
  /-- It is a document about something else. -/
  | mismatched
  deriving DecidableEq, Repr

/-- Reads a description. -/
def Description.read (text : String) : Except ReadError Description :=
  match Toml.parse text with
  | none => .error .malformed
  | some entries =>
    match Description.decode entries with
    | none => .error .mismatched
    | some d => .ok d

end TileFusion
