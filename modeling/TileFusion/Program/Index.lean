import TileFusion.Stage.Loader

/-!
# Index expressions

The expressions over loop variables by which a kernel finds its tiles. Each has a text, which stands
in the device code, and a value, which it has at one turn of the loops around it.
-/

namespace TileFusion

/-- An expression over loop variables. -/
inductive Index where
  | const (value : Nat)
  | var (name : String)
  | add (x y : Index)
  | mul (x y : Index)
  | div (x y : Index)
  | mod (x y : Index)
  deriving DecidableEq, Repr

/-- What the loop variables hold at one turn of the loops. -/
abbrev Turn := String → Nat

/-- One variable changed. -/
def Turn.set (turn : Turn) (name : String) (value : Nat) : Turn :=
  fun x => if x = name then value else turn x

namespace Index

/-- Value at a turn of the loops. -/
def eval (turn : Turn) : Index → Nat
  | const value => value
  | var name => turn name
  | add x y => x.eval turn + y.eval turn
  | mul x y => x.eval turn * y.eval turn
  | div x y => x.eval turn / y.eval turn
  | mod x y => x.eval turn % y.eval turn

/-- An operand of a multiplicative operator, which stands in brackets unless it is one word. -/
def bracketed (x : Index) (text : String) : String :=
  match x with
  | const _ | var _ => text
  | _ => s!"({text})"

/-- Spelling in device code. -/
def text : Index → String
  | const value => toString value
  | var name => name
  | add x y => s!"{x.text} + {y.text}"
  | mul x y => s!"{bracketed x x.text} * {bracketed y y.text}"
  | div x y => s!"{bracketed x x.text} / {bracketed y y.text}"
  | mod x y => s!"{bracketed x x.text} % {bracketed y y.text}"

/-- The full batch that is being worked on. -/
def batch : Index := var "batch"

/-- Tiles in front of the batch that is not full. -/
def batchOffset : Index := var "batch_offset"

/-- Place of a tile in its batch. -/
def place : Index := var "i"

/-- Place of a tile in the output. -/
def tile : Index := var "tile_idx"

/-- Step along the inner dimension of a matrix product. -/
def inner : Index := var "kt"

/-- The tile of the second operand: a scalar spread reads the same one again and again. -/
def second : Broadcast → Index
  | .scalar => const 0
  | _ => tile

/-- The tile of the first factor of a matrix product. -/
def leftFactor (columns innerTiles : Nat) : Index :=
  add (mul (div tile (const columns)) (const innerTiles)) inner

/-- The tile of the second factor of a matrix product. -/
def rightFactor (columns : Nat) : Index :=
  add (mul inner (const columns)) (mod tile (const columns))

/-- The first tile of the row of tiles that is tilized. -/
def tilizedRow (columns : Nat) : Index :=
  mul (div tile (const columns)) (const columns)

/-- The place in that row. -/
def tilizedColumn (columns : Nat) : Index :=
  mod tile (const columns)

end Index

end TileFusion
