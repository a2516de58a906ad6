import TileFusion.Pipeline

/-!
# Pipeline descriptions

What a description file says, entry by entry, before anything is checked. Absent settings that have
a default are filled in; the others stay open.
-/

namespace TileFusion

/-- Settings of the whole pipeline. -/
structure PipelineEntry where
  /-- The target, which may be left to the caller. -/
  platform : Option Platform
  accumulate : Bool
  batchSize : Nat
  destSync : DestSync
  deriving DecidableEq, Repr

/-- The settings of a file that says nothing about them. -/
def PipelineEntry.default : PipelineEntry :=
  ⟨none, false, 1, .half⟩

/-- A buffer that the caller provides, at an address of its own choice or not. -/
structure InputEntry where
  name : String
  dims : Dims
  format : DataFormat
  address : Option Nat
  deriving DecidableEq, Repr

/-- The kind of a loader. -/
inductive LoaderName where
  | direct
  | broadcast
  | reduce
  | matmul
  | tilize
  deriving DecidableEq, Repr

instance : Named LoaderName where
  all := [.direct, .broadcast, .reduce, .matmul, .tilize]
  name
    | .direct => "direct"
    | .broadcast => "broadcast"
    | .reduce => "reduce"
    | .matmul => "matmul"
    | .tilize => "tilize"

/-- The kind of an arithmetic unit. -/
inductive ArithmeticName where
  | eltwise
  | reduce
  | matmul
  | datacopy
  deriving DecidableEq, Repr

instance : Named ArithmeticName where
  all := [.eltwise, .reduce, .matmul, .datacopy]
  name
    | .eltwise => "eltwise"
    | .reduce => "reduce"
    | .matmul => "matmul"
    | .datacopy => "datacopy"

/-- The kind of a nonlinear unit. -/
inductive NonlinearName where
  | unary
  | binary
  deriving DecidableEq, Repr

instance : Named NonlinearName where
  all := [.unary, .binary]
  name
    | .unary => "unary"
    | .binary => "binary"

/-- A nonlinear unit. The constant is there for filling operations, and the three tiles for operations
on two tiles. -/
structure NonlinearEntry where
  kind : NonlinearName
  /-- Name of the operation, whose meaning depends on the kind. -/
  op : String
  iterations : Nat
  approximate : Bool
  fill : Option (Scalar binary32)
  first : Option Nat
  second : Option Nat
  result : Option Nat
  deriving DecidableEq, Repr

/-- A stage. What only some loaders and arithmetic units ask for may be left out. -/
structure StageEntry where
  sourceA : String
  sourceB : Option String
  output : String
  outputFormat : DataFormat
  outputAddress : Option Nat
  loader : LoaderName
  broadcast : Option Broadcast
  reuse : Reuse
  transposeFaces : Bool
  transposeWithinFace : Bool
  arithmetic : ArithmeticName
  op : Option EltwiseOp
  reduceDim : Option ReduceDim
  pool : Option Pool
  nonlinear : List NonlinearEntry
  fidelity : Fidelity
  unpackToDest : Bool
  deriving DecidableEq, Repr

/-- A whole description. -/
structure Description where
  pipeline : PipelineEntry
  inputs : List InputEntry
  stages : List StageEntry
  deriving DecidableEq, Repr

end TileFusion
