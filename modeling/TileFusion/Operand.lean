import TileFusion.Format

/-!
# Operands

An operand is a named buffer in the device's memory. It is declared first; its contents (shape,
format, size) and its location may become known later. Addresses and sizes are 32-bit words, and
`word?` is the one place where a number that does not fit is turned away.
-/

namespace TileFusion

/-- Numbers of the device are below this limit, two to the 32nd. -/
def wordLimit : Nat := 4294967296

/-- The number itself if it fits in a device word. -/
def word? (n : Nat) : Option Nat :=
  if n < wordLimit then some n else none

theorem word?_eq_some_iff {n m : Nat} : word? n = some m ↔ n < wordLimit ∧ n = m := by
  by_cases h : n < wordLimit <;> simp [word?, h]

/-- Rows and columns of a matrix. -/
structure Dims where
  rows : Nat
  cols : Nat
  deriving DecidableEq, Repr

namespace Dims

/-- Tiles needed to cover the rows. -/
def tileRows (d : Dims) : Nat :=
  (d.rows + (tileSide - 1)) / tileSide

/-- Tiles needed to cover the columns. -/
def tileCols (d : Dims) : Nat :=
  (d.cols + (tileSide - 1)) / tileSide

/-- Whole or partial tiles that cover the matrix, if the count fits in a word. -/
def tileCount? (d : Dims) : Option Nat :=
  word? (d.tileRows * d.tileCols)

/-- Whether the matrix is non-empty and made of whole tiles. -/
def isWhole (d : Dims) : Bool :=
  d.rows != 0 && d.cols != 0 && d.rows % tileSide == 0 && d.cols % tileSide == 0

/-- Rows and columns as messages write them. -/
def text (d : Dims) : String :=
  s!"{d.rows}x{d.cols}"

end Dims

/-- What an operand holds, once that is known. -/
structure Contents where
  dims : Dims
  format : DataFormat
  /-- Tiles that cover the matrix. -/
  tiles : Nat
  /-- Bytes of all tiles. -/
  size : Nat
  deriving DecidableEq, Repr

/-- Tile count and byte size of a matrix, if both fit in a word. -/
def Contents.of? (dims : Dims) (format : DataFormat) : Option Contents := do
  let tiles ← dims.tileCount?
  let size ← word? (tiles * format.tileBytes)
  return ⟨dims, format, tiles, size⟩

/-- What an operand is for. -/
inductive Role where
  /-- Provided before the pipeline runs. -/
  | input
  /-- Written by one stage and read by a later one. -/
  | intermediate
  /-- Written by a stage and read back afterwards. -/
  | output
  deriving DecidableEq, Repr

/-- Where an operand lies. -/
inductive Location where
  /-- No address yet. -/
  | floating
  /-- At an address that the caller asked for. -/
  | pinned (address : Nat)
  /-- At an address found by placement. -/
  | assigned (address : Nat)
  deriving DecidableEq, Repr

/-- The address, when there is one. -/
def Location.address? : Location → Option Nat
  | floating => none
  | pinned address | assigned address => some address

/-- The location that an optional request asks for. -/
def Location.ofRequest : Option Nat → Location
  | none => floating
  | some address => pinned address

/-- A named buffer. -/
structure Operand where
  /-- Place in the registry. -/
  id : Nat
  name : String
  role : Role
  /-- The stage that writes it; none for an input. -/
  producer : Option Nat
  location : Location
  contents : Option Contents
  deriving DecidableEq, Repr

namespace Operand

/-- Whether shape and format are known. -/
def isResolved (o : Operand) : Bool :=
  o.contents.isSome

/-- Whether the buffer has an address. -/
def isPlaced (o : Operand) : Bool :=
  o.location.address?.isSome

/-- Shape; 0x0 while unknown. -/
def dims (o : Operand) : Dims :=
  (o.contents.map (·.dims)).getD ⟨0, 0⟩

/-- Format; `float16b` while unknown. -/
def format (o : Operand) : DataFormat :=
  (o.contents.map (·.format)).getD .float16b

/-- Tiles; none while unknown. -/
def tiles (o : Operand) : Nat :=
  (o.contents.map (·.tiles)).getD 0

/-- Bytes; none while unknown. -/
def size (o : Operand) : Nat :=
  (o.contents.map (·.size)).getD 0

/-- Address; 0 while unplaced. -/
def address (o : Operand) : Nat :=
  o.location.address?.getD 0

/-- The contents fit at the address that the caller asked for. -/
def fitsPin (location : Location) (contents : Contents) : Bool :=
  match location with
  | .pinned address => (word? (address + contents.size)).isSome
  | _ => true

/-- The operand with its contents settled, unless they cannot be addressed. -/
def resolve? (o : Operand) (dims : Dims) (format : DataFormat) : Option Operand := do
  let contents ← Contents.of? dims format
  if fitsPin o.location contents then
    return { o with contents := some contents }
  else
    none

end Operand

end TileFusion
