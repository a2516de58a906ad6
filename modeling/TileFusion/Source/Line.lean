import TileFusion.Source.CallText

/-!
# Lines of a thread

A thread program is written line by line. Depth and the batch around a statement are arguments of
`linesOf`, not a state that it changes, so the lines of two lists in a row are the lines of the
first followed by those of the second.
-/

namespace TileFusion

/-- One line of code. The depth counts the blocks around it. -/
inductive Line where
  | blank
  /-- A comment, a declaration or the head of a loop. -/
  | code (depth : Nat) (text : String)
  /-- Part of a device call. -/
  | call (depth : Nat) (text : String)
  /-- Start of a block. -/
  | opening (depth : Nat)
  /-- End of a block. -/
  | closing (depth : Nat)
  deriving DecidableEq, Repr

/-- A line at a depth, with the four blanks of each level and of the function body around all. -/
def indented (depth : Nat) (text : String) : String :=
  "".pushn ' ' (4 * (depth + 1)) ++ text ++ "\n"

/-- Text of a line. -/
def Line.text : Line → String
  | blank => "\n"
  | code depth text | call depth text => indented depth text
  | opening depth => indented depth "\x7b"
  | closing depth => indented depth "\x7d"

/-- The tiles of the batch around a statement. -/
structure TileScope where
  count : Nat
  /-- The place in the output of the tile that is worked on. -/
  index : Index

namespace TileScope

/-- Outside any batch there is one tile, the first. -/
def single : TileScope := ⟨1, .const 0⟩

/-- The tiles of a full batch. -/
def full (shape : BatchShape) : TileScope :=
  ⟨shape.batchSize, .add (.mul .batch (.const shape.batchSize)) .place⟩

/-- The tiles behind the full batches. -/
def rest (shape : BatchShape) : TileScope :=
  ⟨shape.remainder, .add .batchOffset .place⟩

/-- The tiles of the only batch, when no batch is full. -/
def only (shape : BatchShape) : TileScope :=
  ⟨shape.remainder, .place⟩

end TileScope

/-- The mark of a declaration that may stay without a reader. -/
def unusedMark (unused : Bool) : String :=
  if unused then "UNUSED " else ""

/-- Text of a declaration. -/
def Declaration.text : Declaration → String
  | buffer name address tileBytes unused =>
    s!"{unusedMark unused}const Operand {name}({hexText address}, {tileBytes});"
  | format name value unused =>
    s!"{unusedMark unused}const uint32_t {name} = {formatValue value};"
  | destSync name sync => s!"constexpr DstSync {name} = {sync.code};"

/-- Head of a loop. -/
def loopHead (counter : String) (count : Nat) : String :=
  s!"for (uint32_t {counter} = 0; {counter} < {count}; ++{counter})"

/-- A block under a head. -/
def block (depth : Nat) (head : String) (body : List Line) : List Line :=
  .code depth head :: .opening depth :: body ++ [.closing depth]

mutual

/-- Lines of one statement in a thread, at a depth, with the batch around it. -/
def Stmt.lines (platform : Platform) (thread : Thread) (depth : Nat) (scope : TileScope) :
    Stmt → List Line
  | .comment text => [.code depth s!"// {text}"]
  | .declare declaration => [.code depth declaration.text]
  | .call call => (call.lines platform).map (.call depth)
  | .batched shape body =>
    (if shape.fullBatches = 0 then []
      else
        block depth (loopHead "batch" shape.fullBatches)
          (linesOf platform thread (depth + 1) (.full shape) body)) ++
      (if shape.remainder = 0 then []
        else if shape.fullBatches = 0 then linesOf platform thread depth (.only shape) body
        else
          [.opening depth, .code (depth + 1) s!"const uint32_t batch_offset = {shape.offset};"] ++
            linesOf platform thread (depth + 1) (.rest shape) body ++ [.closing depth])
  | .forEachTile body =>
    block depth (loopHead "i" scope.count)
      ((if thread == .math then []
        else [.code (depth + 1) s!"const uint32_t tile_idx = {scope.index.text};"]) ++
        linesOf platform thread (depth + 1) scope body)
  | .loop counter count body =>
    block depth (loopHead counter count) (linesOf platform thread (depth + 1) scope body)
  | .blank => [.blank]

/-- Lines of statements in a row. -/
def linesOf (platform : Platform) (thread : Thread) (depth : Nat) (scope : TileScope) :
    List Stmt → List Line
  | [] => []
  | stmt :: rest =>
    stmt.lines platform thread depth scope ++ linesOf platform thread depth scope rest

end

/-- Statements in a row are written one after the other. -/
theorem linesOf_append (platform : Platform) (thread : Thread) (depth : Nat) (scope : TileScope)
    (xs ys : List Stmt) :
    linesOf platform thread depth scope (xs ++ ys) =
      linesOf platform thread depth scope xs ++ linesOf platform thread depth scope ys := by
  induction xs with
  | nil => simp [linesOf]
  | cons x xs ih => simp [linesOf, ih]

/-- Body of a thread's function. -/
def bodyText (platform : Platform) (thread : Thread) (body : List Stmt) : String :=
  String.join ((linesOf platform thread 0 .single body).map Line.text)

end TileFusion
