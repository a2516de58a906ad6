import TileFusion.Named

/-!
# Loaders

The loader of a stage says which operands reach the source registers and how. An operand either
comes from memory, and is *fresh*, or is taken out of the accumulator that the previous stage left.
-/

namespace TileFusion

/-- How the second operand is spread across the first. -/
inductive Broadcast where
  | none
  | column
  | row
  | scalar
  deriving DecidableEq, Repr

namespace Broadcast

instance : Named Broadcast where
  all := [none, column, row, scalar]
  name
    | none => "none"
    | column => "column"
    | row => "row"
    | scalar => "scalar"

/-- Spelling in device code. -/
def code : Broadcast → String
  | none => "BroadcastType::NONE"
  | column => "BroadcastType::COL"
  | row => "BroadcastType::ROW"
  | scalar => "BroadcastType::SCALAR"

end Broadcast

/-- Which source register takes the accumulator contents of the previous stage. -/
inductive Reuse where
  | none
  | sourceA
  | sourceB
  deriving DecidableEq, Repr

namespace Reuse

instance : Named Reuse where
  all := [none, sourceA, sourceB]
  name
    | none => "none"
    | sourceA => "to_src_a"
    | sourceB => "to_src_b"

/-- Whether the accumulator is read at all. -/
def isReuse (r : Reuse) : Bool :=
  r != none

/-- Spelling in device code. -/
def code : Reuse → String
  | none => "EltwiseBinaryReuseDestType::NONE"
  | sourceA => "EltwiseBinaryReuseDestType::DEST_TO_SRCA"
  | sourceB => "EltwiseBinaryReuseDestType::DEST_TO_SRCB"

end Reuse

/-- How tiles are brought to the source registers. -/
inductive LoaderKind where
  /-- Tiles of one or two operands as they are. -/
  | direct
  /-- The second operand spread across the first. -/
  | broadcast (spread : Broadcast)
  /-- The first operand together with a tile of scalers. -/
  | reduce
  /-- Both operands walked along the inner dimension. -/
  | matmul
  /-- Rows converted to tile order on the way. -/
  | tilize
  deriving DecidableEq, Repr

namespace LoaderKind

/-- Name of the kind. -/
def name : LoaderKind → String
  | direct => "direct"
  | broadcast _ => "broadcast"
  | reduce => "reduce"
  | matmul => "matmul"
  | tilize => "tilize"

/-- The spread of a broadcasting loader. -/
def spread : LoaderKind → Broadcast
  | broadcast s => s
  | _ => .none

end LoaderKind

/-- The loader of a stage. -/
structure Loader where
  kind : LoaderKind
  sourceA : String
  sourceB : Option String
  /-- Which operand is taken from the accumulator. -/
  reuse : Reuse
  /-- Transpose the order of the faces. -/
  transposeFaces : Bool
  /-- Transpose inside each face. -/
  transposeWithinFace : Bool
  deriving DecidableEq, Repr

namespace Loader

/-- Name of the operand that is taken from the accumulator. -/
def reused (l : Loader) : Option String :=
  match l.reuse with
  | .none => none
  | .sourceA => some l.sourceA
  | .sourceB => l.sourceB

/-- Names of the operands that are read from memory, first source first. -/
def fresh (l : Loader) : List String :=
  match l.reuse with
  | .none => l.sourceA :: l.sourceB.toList
  | .sourceA => l.sourceB.toList
  | .sourceB => [l.sourceA]

end Loader

end TileFusion
