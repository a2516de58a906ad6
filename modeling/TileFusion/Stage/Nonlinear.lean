import TileFusion.Named
import TileFusion.Scalar.Layout

/-!
# Nonlinear units

Units that run on the accumulator after the arithmetic unit: on each tile alone, or on two tiles of
the accumulator.
-/

namespace TileFusion

/-- An operation on one tile. -/
inductive UnaryOp where
  | abs
  | celu
  | exp
  | fill
  | gelu
  | log
  | neg
  | reciprocal
  | relu
  | rsqrt
  | silu
  | sqrt
  | square
  | tanh
  deriving DecidableEq, Repr

namespace UnaryOp

/-- Every operation. -/
def all : List UnaryOp :=
  [abs, celu, exp, fill, gelu, log, neg, reciprocal, relu, rsqrt, silu, sqrt, square, tanh]

/-- Name of the operation. -/
def name : UnaryOp → String
  | abs => "abs"
  | celu => "celu"
  | exp => "exp"
  | fill => "fill"
  | gelu => "gelu"
  | log => "log"
  | neg => "neg"
  | reciprocal => "reciprocal"
  | relu => "relu"
  | rsqrt => "rsqrt"
  | silu => "silu"
  | sqrt => "sqrt"
  | square => "square"
  | tanh => "tanh"

instance : Named UnaryOp := ⟨all, name⟩

/-- Spelling in device code, which is the name but for the exponential. -/
def code : UnaryOp → String
  | exp => "exponential"
  | op => op.name

end UnaryOp

/-- An operation on two tiles. -/
inductive BinaryOp where
  | add
  | sub
  | mul
  | div
  | rsub
  | pow
  | xlogy
  | rshft
  | lshft
  | logicalRshft
  | addTopRow
  deriving DecidableEq, Repr

namespace BinaryOp

/-- Every operation. -/
def all : List BinaryOp :=
  [add, sub, mul, div, rsub, pow, xlogy, rshft, lshft, logicalRshft, addTopRow]

/-- Name of the operation. -/
def name : BinaryOp → String
  | add => "add"
  | sub => "sub"
  | mul => "mul"
  | div => "div"
  | rsub => "rsub"
  | pow => "pow"
  | xlogy => "xlogy"
  | rshft => "rshft"
  | lshft => "lshft"
  | logicalRshft => "logical_rshft"
  | addTopRow => "add_top_row"

instance : Named BinaryOp := ⟨all, name⟩

/-- Spelling in device code: the name in capitals. -/
def code (op : BinaryOp) : String :=
  op.name.toUpper

end BinaryOp

/-- A unit that runs on the accumulator. -/
inductive Nonlinear where
  /-- On every tile of a batch; `fill` is the constant of filling operations. -/
  | unary (op : UnaryOp) (iterations : Nat) (approximate : Bool) (fill : Scalar binary32)
  /-- On the accumulator tiles `first` and `second`, into the tile `result`. -/
  | binary (op : BinaryOp) (iterations : Nat) (approximate : Bool) (first second result : Nat)
  deriving DecidableEq, Repr

namespace Nonlinear

/-- How often the unit iterates when nothing is said. -/
def defaultIterations : Nat := 32

/-- The constant of filling operations when nothing is said: five. -/
def defaultFill : Scalar binary32 :=
  .ofInt binary32 5

/-- How often the unit iterates. -/
def iterations : Nonlinear → Nat
  | unary _ n _ _ => n
  | binary _ n _ _ _ _ => n

end Nonlinear

end TileFusion
