import TileFusion.Source.Line

/-!
# Writing in place

The text of a thread can be written line by line into one state: what is there so far, the depth of
the next line, and the tiles of the batch around it (`Writer`). Blocks move the depth down and up
again. Batches set the tiles aside, put others there for the full batches and for the rest, and
bring the old ones back at their end. `Stmt.write` writes in this way, and `linesOf`, which has
depth and batch as arguments, says the same without a state.

> `level_writeAll`: statements leave depth and batch as they were, whatever they were;
> `writeAll_eq`: what they write is their lines;
> `bodyText_append`: so texts of statements in a row are put together like the statements.
-/

namespace TileFusion

/-- A text that is being written. -/
structure Writer where
  /-- What is there so far. -/
  out : String
  /-- Levels of the next line; the function body is the first one. -/
  depth : Nat
  /-- The tiles of the batch around it. -/
  tiles : Option TileScope

namespace Writer

/-- Adds text as it is. -/
def append (w : Writer) (text : String) : Writer :=
  { w with out := w.out ++ text }

/-- Adds a line. -/
def line (w : Writer) (text : String) : Writer :=
  w.append ("".pushn ' ' (4 * w.depth) ++ text ++ "\n")

/-- The tiles that a loop over tiles runs through. -/
def scope (w : Writer) : TileScope :=
  w.tiles.getD .single

/-- Enters or leaves a batch. -/
def within (w : Writer) (tiles : Option TileScope) : Writer :=
  { w with tiles := tiles }

/-- Moves to a depth. -/
def atDepth (w : Writer) (depth : Nat) : Writer :=
  { w with depth := depth }

/-- Nothing is there yet, and the next line is the first of the function body. -/
def empty : Writer := ⟨"", 1, none⟩

/-- Starts a block. -/
def enter (w : Writer) : Writer :=
  (w.line "\x7b").atDepth (w.depth + 1)

/-- Starts a block under a head. -/
def enterUnder (w : Writer) (head : String) : Writer :=
  (w.line head).enter

/-- Ends a block. -/
def leave (w : Writer) : Writer :=
  (w.atDepth (w.depth - 1)).line "\x7d"

/-- Writes the full batches, if there are any. -/
def fullBatches (w : Writer) (shape : BatchShape) (write : Writer → Writer) : Writer :=
  if shape.fullBatches = 0 then w
  else
    (write ((w.within (some (.full shape))).enterUnder (loopHead "batch" shape.fullBatches))).leave

/-- Writes the batch behind the full ones, if there is one. -/
def remainder (w : Writer) (shape : BatchShape) (write : Writer → Writer) : Writer :=
  if shape.remainder = 0 then w
  else if shape.fullBatches = 0 then write (w.within (some (.only shape)))
  else
    (write ((w.enter.line s!"const uint32_t batch_offset = {shape.offset};").within
      (some (.rest shape)))).leave

/-- Writes all batches. The tiles of the batch around them are back at the end. -/
def batches (w : Writer) (shape : BatchShape) (write : Writer → Writer) : Writer :=
  (((w.within none).fullBatches shape write).remainder shape write).within w.tiles

/-- Writes down the place of a tile in the output. The math thread has no use for it. -/
def tile (w : Writer) (thread : Thread) : Writer :=
  if thread == .math then w else w.line s!"const uint32_t tile_idx = {w.scope.index.text};"

end Writer

mutual

/-- Writes one statement. -/
def Stmt.write (platform : Platform) (thread : Thread) : Stmt → Writer → Writer
  | .comment text, w => w.line s!"// {text}"
  | .declare declaration, w => w.line declaration.text
  | .call call, w => (call.lines platform).foldl Writer.line w
  | .batched shape body, w => w.batches shape (writeAll platform thread body)
  | .forEachTile body, w =>
    (writeAll platform thread body
      ((w.enterUnder (loopHead "i" w.scope.count)).tile thread)).leave
  | .loop counter count body, w =>
    (writeAll platform thread body (w.enterUnder (loopHead counter count))).leave
  | .blank, w => w.append "\n"

/-- Writes statements in a row. -/
def writeAll (platform : Platform) (thread : Thread) : List Stmt → Writer → Writer
  | [], w => w
  | stmt :: rest, w => writeAll platform thread rest (stmt.write platform thread w)

end

/-! ## Depth and batch -/

/-- Both writers are at the same depth, in the same batch. -/
structure Writer.Level (w w' : Writer) : Prop where
  depth_eq : w'.depth = w.depth
  tiles_eq : w'.tiles = w.tiles

namespace Writer

variable {w : Writer} {write : Writer → Writer}

theorem Level.trans {w' w'' : Writer} (h : w.Level w') (h' : w'.Level w'') : w.Level w'' :=
  ⟨h'.depth_eq.trans h.depth_eq, h'.tiles_eq.trans h.tiles_eq⟩

theorem level_line (w : Writer) (text : String) : w.Level (w.line text) := ⟨rfl, rfl⟩

theorem level_tile (w : Writer) (thread : Thread) : w.Level (w.tile thread) := by
  unfold tile
  split <;> exact ⟨rfl, rfl⟩

theorem level_foldl_line (texts : List String) (w : Writer) :
    w.Level (texts.foldl Writer.line w) := by
  induction texts generalizing w with
  | nil => exact ⟨rfl, rfl⟩
  | cons text texts ih => exact (w.level_line text).trans (ih (w.line text))

/-- A block is left as it was entered. -/
theorem level_leave {inner : Writer} (h : w.enter.Level inner) : w.Level inner.leave :=
  ⟨congrArg (· - 1) h.depth_eq, h.tiles_eq⟩

theorem level_leave_under {inner : Writer} {head : String} (h : (w.enterUnder head).Level inner) :
    w.Level inner.leave :=
  (w.level_line head).trans (level_leave h)

/-- Full batches are written in a block, but the tiles are not put back behind it. -/
theorem depth_fullBatches (h : ∀ w : Writer, w.Level (write w)) (w : Writer) (shape : BatchShape) :
    (w.fullBatches shape write).depth = w.depth := by
  unfold fullBatches
  split
  · rfl
  · exact (level_leave_under (w := w.within _) (h _)).depth_eq

theorem depth_remainder (h : ∀ w : Writer, w.Level (write w)) (w : Writer) (shape : BatchShape) :
    (w.remainder shape write).depth = w.depth := by
  unfold remainder
  split
  · rfl
  · split
    · exact (h _).depth_eq
    · exact congrArg (· - 1) (h _).depth_eq

theorem level_batches (h : ∀ w : Writer, w.Level (write w)) (w : Writer) (shape : BatchShape) :
    w.Level (w.batches shape write) where
  depth_eq := (depth_remainder h _ shape).trans (depth_fullBatches h _ shape)
  tiles_eq := rfl

end Writer

section Level

variable {platform : Platform} {thread : Thread}

mutual

/-- **One statement.** Depth and batch are as before, whatever they were. -/
theorem Stmt.level_write : ∀ (stmt : Stmt) (w : Writer), w.Level (stmt.write platform thread w)
  | .comment _, w | .declare _, w => by
    rw [Stmt.write]
    exact w.level_line _
  | .call call, w => by
    rw [Stmt.write]
    exact w.level_foldl_line _
  | .blank, w => ⟨rfl, rfl⟩
  | .batched shape body, w => by
    rw [Stmt.write]
    exact w.level_batches (level_writeAll body) shape
  | .forEachTile body, w => by
    rw [Stmt.write]
    exact Writer.level_leave_under ((Writer.level_tile _ thread).trans (level_writeAll body _))
  | .loop counter count body, w => by
    rw [Stmt.write]
    exact Writer.level_leave_under (level_writeAll body _)

theorem level_writeAll : ∀ (body : List Stmt) (w : Writer),
    w.Level (writeAll platform thread body w)
  | [], w => by
    rw [writeAll]
    exact ⟨rfl, rfl⟩
  | stmt :: rest, w => by
    rw [writeAll]
    exact (stmt.level_write w).trans (level_writeAll rest _)

end

end Level

/-! ## Text -/

/-- Lines as one text. -/
def textOf (lines : List Line) : String :=
  String.join (lines.map Line.text)

theorem textOf_cons (line : Line) (lines : List Line) :
    textOf (line :: lines) = line.text ++ textOf lines := by
  rw [textOf, List.map_cons, String.join_cons]
  rfl

theorem textOf_singleton (line : Line) : textOf [line] = line.text := by
  rw [textOf_cons, textOf, List.map_nil, String.join_nil, String.append_empty]

theorem textOf_append (xs ys : List Line) : textOf (xs ++ ys) = textOf xs ++ textOf ys := by
  rw [textOf, List.map_append, String.join_append]
  rfl

namespace Writer

theorem scope_append (w : Writer) (text : String) : (w.append text).scope = w.scope := rfl

theorem append_append (w : Writer) (x y : String) : (w.append x).append y = w.append (x ++ y) := by
  simp [append, String.append_assoc]

theorem line_eq {w : Writer} {d : Nat} (hd : w.depth = d + 1) (text : String) :
    w.line text = w.append (indented d text) := by
  rw [line, hd]
  rfl

/-- `write` adds the text of these lines, and leaves depth and batch alone. -/
def Adds (write : Writer → Writer) (lines : Nat → TileScope → List Line) : Prop :=
  ∀ (w : Writer) (d : Nat), w.depth = d + 1 → write w = w.append (textOf (lines d w.scope))

variable {w : Writer} {d : Nat} {write : Writer → Writer} {lines : Nat → TileScope → List Line}

/-- A line in front. -/
theorem Adds.cons (h : Adds write lines) (text : String) :
    Adds (fun inner => write (inner.line text))
      (fun d tiles => .code d text :: lines d tiles) := by
  intro inner d hd
  have hwrite := h (inner.append (indented d text)) d hd
  rw [append_append, ← inner.line_eq hd] at hwrite
  rw [textOf_cons]
  exact hwrite

/-- The place of a tile in front. -/
theorem Adds.tile (h : Adds write lines) (thread : Thread) :
    Adds (fun inner => write (inner.tile thread))
      (fun d tiles => (if thread == .math then []
        else [.code d s!"const uint32_t tile_idx = {tiles.index.text};"]) ++ lines d tiles) := by
  intro inner d hd
  unfold Writer.tile
  split
  · exact h inner d hd
  · exact h.cons s!"const uint32_t tile_idx = {inner.scope.index.text};" inner d hd

theorem leave_enter (hd : w.depth = d + 1) (h : Adds write lines) :
    (write w.enter).leave =
      w.append (textOf (.opening d :: lines (d + 1) w.scope ++ [.closing d])) := by
  have hinner := h w.enter (d + 1) (congrArg (· + 1) hd)
  have htext : textOf (.opening d :: lines (d + 1) w.scope ++ [.closing d]) =
      indented d "\x7b" ++ textOf (lines (d + 1) w.scope) ++ indented d "\x7d" := by
    rw [List.cons_append, textOf_cons, textOf_append, ← String.append_assoc, textOf_singleton]
    rfl
  rw [hinner, htext, ← append_append, ← append_append, ← line_eq hd]
  exact line_eq (w := (w.line "\x7b").append _) hd _

theorem leave_enterUnder (hd : w.depth = d + 1) (head : String) (h : Adds write lines) :
    (write (w.enterUnder head)).leave =
      w.append (textOf (block d head (lines (d + 1) w.scope))) := by
  rw [enterUnder, line_eq hd, leave_enter (w := w.append (indented d head)) hd h, append_append]
  exact congrArg w.append (textOf_cons (.code d head) _).symm

/-- Lines of the full batches, if there are any. -/
def fullLines (lines : Nat → TileScope → List Line) (shape : BatchShape) (d : Nat) : List Line :=
  if shape.fullBatches = 0 then []
  else block d (loopHead "batch" shape.fullBatches) (lines (d + 1) (.full shape))

/-- Lines of the batch behind the full ones, if there is one. -/
def restLines (lines : Nat → TileScope → List Line) (shape : BatchShape) (d : Nat) : List Line :=
  if shape.remainder = 0 then []
  else if shape.fullBatches = 0 then lines d (.only shape)
  else
    .opening d :: (.code (d + 1) s!"const uint32_t batch_offset = {shape.offset};" ::
      lines (d + 1) (.rest shape)) ++ [.closing d]

/-- The batch around the writer may be another one afterwards. -/
theorem fullBatches_eq (hd : w.depth = d + 1) (shape : BatchShape) (h : Adds write lines) :
    ∃ tiles, w.fullBatches shape write =
      (w.append (textOf (fullLines lines shape d))).within tiles := by
  unfold fullBatches fullLines
  split
  next => exact ⟨w.tiles, by simp [textOf, append, within]⟩
  next => exact ⟨_, leave_enterUnder (w := w.within (some (.full shape))) hd _ h⟩

theorem remainder_eq (hd : w.depth = d + 1) (shape : BatchShape) (h : Adds write lines) :
    ∃ tiles, w.remainder shape write =
      (w.append (textOf (restLines lines shape d))).within tiles := by
  unfold remainder restLines
  split
  next => exact ⟨w.tiles, by simp [textOf, append, within]⟩
  next =>
    split
    next => exact ⟨_, h (w.within (some (.only shape))) d hd⟩
    next =>
      generalize s!"const uint32_t batch_offset = {shape.offset};" = text
      exact ⟨_, leave_enter (w := w.within (some (.rest shape))) hd (h.cons text)⟩

theorem batches_eq (hd : w.depth = d + 1) (shape : BatchShape) (h : Adds write lines) :
    w.batches shape write =
      w.append (textOf (fullLines lines shape d ++ restLines lines shape d)) := by
  obtain ⟨tiles, hfull⟩ := fullBatches_eq (w := w.within none) hd shape h
  obtain ⟨tiles', hrest⟩ := remainder_eq
    (w := ((w.within none).append (textOf (fullLines lines shape d))).within tiles) hd shape h
  rw [batches, hfull, hrest, textOf_append, ← append_append]
  rfl

end Writer

section Text

variable {platform : Platform} {thread : Thread}

theorem foldl_line {d : Nat} (texts : List String) :
    ∀ {w : Writer}, w.depth = d + 1 →
      texts.foldl Writer.line w = w.append (textOf (texts.map (.call d))) := by
  induction texts with
  | nil =>
    intro w _
    simp [textOf, Writer.append]
  | cons text texts ih =>
    intro w hd
    rw [List.foldl_cons, w.line_eq hd, ih (w := w.append _) hd, Writer.append_append,
      List.map_cons, textOf_cons]
    rfl

mutual

theorem Stmt.write_eq : ∀ (stmt : Stmt) (w : Writer) (d : Nat), w.depth = d + 1 →
    stmt.write platform thread w = w.append (textOf (stmt.lines platform thread d w.scope))
  | .comment text, w, d, hd => by
    rw [Stmt.write, Stmt.lines, w.line_eq hd, textOf_singleton]
    rfl
  | .declare declaration, w, d, hd => by
    rw [Stmt.write, Stmt.lines, w.line_eq hd, textOf_singleton]
    rfl
  | .call call, w, d, hd => by
    rw [Stmt.write, Stmt.lines, foldl_line _ hd]
  | .blank, w, d, hd => by
    rw [Stmt.write, Stmt.lines, textOf_singleton]
    rfl
  | .batched shape body, w, d, hd => by
    have hbody : Writer.Adds (writeAll platform thread body)
        (fun d tiles => linesOf platform thread d tiles body) := writeAll_eq body
    have hall := w.batches_eq hd shape hbody
    rw [Stmt.write, Stmt.lines]
    exact hall
  | .forEachTile body, w, d, hd => by
    have hbody : Writer.Adds (writeAll platform thread body)
        (fun d tiles => linesOf platform thread d tiles body) := writeAll_eq body
    have hloop := w.leave_enterUnder hd (loopHead "i" w.scope.count) (hbody.tile thread)
    rw [Stmt.write, Stmt.lines]
    exact hloop
  | .loop counter count body, w, d, hd => by
    have hbody : Writer.Adds (writeAll platform thread body)
        (fun d tiles => linesOf platform thread d tiles body) := writeAll_eq body
    rw [Stmt.write, Stmt.lines]
    exact w.leave_enterUnder hd _ hbody

/-- Statements add their lines, one after the other. -/
theorem writeAll_eq : ∀ (body : List Stmt) (w : Writer) (d : Nat), w.depth = d + 1 →
    writeAll platform thread body w = w.append (textOf (linesOf platform thread d w.scope body))
  | [], w, d, hd => by
    simp [writeAll, linesOf, textOf, Writer.append]
  | stmt :: rest, w, d, hd => by
    rw [writeAll, stmt.write_eq w d hd, writeAll_eq rest (w.append _) d hd, Writer.append_append,
      linesOf, textOf_append, Writer.scope_append]

end

/-- The body of a thread is what is written into an empty writer. -/
theorem bodyText_eq_out (body : List Stmt) :
    bodyText platform thread body = (writeAll platform thread body .empty).out := by
  rw [writeAll_eq body .empty 0 rfl]
  exact String.empty_append.symm

theorem bodyText_append (xs ys : List Stmt) :
    bodyText platform thread (xs ++ ys) =
      bodyText platform thread xs ++ bodyText platform thread ys := by
  unfold bodyText
  rw [linesOf_append]
  exact textOf_append _ _

end Text

end TileFusion
