import TileFusion.Named

/-!
# Arithmetic units

What the math thread computes from the source registers, and at which fidelity.
-/

namespace TileFusion

/-- An elementwise operation on two operands. -/
inductive EltwiseOp where
  | add
  | sub
  | mul
  deriving DecidableEq, Repr

namespace EltwiseOp

instance : Named EltwiseOp where
  all := [add, sub, mul]
  name
    | add => "add"
    | sub => "sub"
    | mul => "mul"

/-- Spelling in device code. -/
def code : EltwiseOp → String
  | add => "ELWADD"
  | sub => "ELWSUB"
  | mul => "ELWMUL"

end EltwiseOp

/-- The direction of a reduction. -/
inductive ReduceDim where
  | row
  | column
  | scalar
  deriving DecidableEq, Repr

namespace ReduceDim

instance : Named ReduceDim where
  all := [row, column, scalar]
  name
    | row => "row"
    | column => "column"
    | scalar => "scalar"

/-- Spelling in device code. -/
def code : ReduceDim → String
  | row => "ReduceDim::REDUCE_ROW"
  | column => "ReduceDim::REDUCE_COL"
  | scalar => "ReduceDim::REDUCE_SCALAR"

end ReduceDim

/-- What a reduction computes. -/
inductive Pool where
  | max
  | sum
  | average
  deriving DecidableEq, Repr

namespace Pool

instance : Named Pool where
  all := [max, sum, average]
  name
    | max => "max"
    | sum => "sum"
    | average => "average"

/-- Spelling in device code. -/
def code : Pool → String
  | max => "PoolType::MAX"
  | sum => "PoolType::SUM"
  | average => "PoolType::AVG"

end Pool

/-- The arithmetic unit of a stage. -/
inductive Arithmetic where
  /-- Elementwise on two operands. -/
  | eltwise (op : EltwiseOp)
  /-- Reduction along a dimension. -/
  | reduce (dim : ReduceDim) (pool : Pool)
  | matmul
  /-- A source register copied to the accumulator. -/
  | datacopy
  deriving DecidableEq, Repr

namespace Arithmetic

/-- Name of the unit. -/
def name : Arithmetic → String
  | eltwise _ => "eltwise"
  | reduce _ _ => "reduce"
  | matmul => "matmul"
  | datacopy => "datacopy"

/-- Whether the unit reduces. -/
def isReduce : Arithmetic → Bool
  | reduce _ _ => true
  | _ => false

end Arithmetic

/-- Precision of products. -/
inductive Fidelity where
  | lofi
  | hifi2
  | hifi3
  | hifi4
  deriving DecidableEq, Repr

namespace Fidelity

/-- Name of the fidelity. -/
def name : Fidelity → String
  | lofi => "LoFi"
  | hifi2 => "HiFi2"
  | hifi3 => "HiFi3"
  | hifi4 => "HiFi4"

instance : Named Fidelity := ⟨[lofi, hifi2, hifi3, hifi4], name⟩

/-- Spelling in device code. -/
def code (f : Fidelity) : String :=
  s!"MathFidelity::{f.name}"

end Fidelity

end TileFusion
