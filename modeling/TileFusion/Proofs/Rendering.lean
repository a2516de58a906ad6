import TileFusion.Proofs.LegibleCalls
import TileFusion.Proofs.Writing

/-!
# Rendering

What the text of a thread looks like, whatever its statements are nested in. A reader who only sees
the text finds the blocks by the lines that hold nothing but a brace, and how deep a line stands by
the blanks in front of it (`openBlocks`).

> `nested_linesOf`: in the lines of statements both are in order, and go together;
> `filter_linesOf`: without the lines of calls, they are the same on every platform;
> `rendering_composes`: all this of the text, together with how it is put together.

The first is about statements that bring no line break along (`UnbrokenAll`): remarks, identifiers
and counters are written as they are.
-/

namespace TileFusion

/-! ## Reading the blocks -/

/-- What stands in a line. -/
def Line.chars : Line → List Char
  | blank => []
  | code depth text | call depth text => List.replicate (4 * (depth + 1)) ' ' ++ text.toList
  | opening depth => List.replicate (4 * (depth + 1)) ' ' ++ ['\x7b']
  | closing depth => List.replicate (4 * (depth + 1)) ' ' ++ ['\x7d']

/-- Goes over a line with so many blocks open around it, and says how many are open behind it. A
line that is not empty begins with the blanks of the body and of the blocks around it; the brace
that ends a block stands below the one that starts it. -/
def passLine (blocks : Nat) (line : List Char) : Option Nat :=
  let blanks := (line.takeWhile (· == ' ')).length
  if line = [] then some blocks
  else if line.dropWhile (· == ' ') = ['\x7d'] then
    if 1 ≤ blocks ∧ blanks = 4 * blocks then some (blocks - 1) else none
  else if blanks = 4 * (blocks + 1) then
    some (if line.dropWhile (· == ' ') = ['\x7b'] then blocks + 1 else blocks)
  else none

/-- Goes over a text from the start of the function body, and says how many blocks are open at its
end. There is no answer if a block ends that is not open, or if a line has other blanks in front
than its blocks ask for. -/
def openBlocks (text : String) : Option Nat :=
  (text.toList.splitOn '\n').foldlM passLine 0

theorem toList_indented (depth : Nat) (text : String) :
    (indented depth text).toList =
      List.replicate (4 * (depth + 1)) ' ' ++ text.toList ++ ['\n'] := by
  simp [indented, toList_pushn]

theorem Line.toList_text (line : Line) : line.text.toList = line.chars ++ ['\n'] := by
  cases line with
  | blank => simp [text, chars]
  | code depth text | call depth text => exact toList_indented depth text
  | opening depth | closing depth => simp [text, chars, toList_indented]

theorem splitOn_append_newline {line : List Char} (h : '\n' ∉ line) (rest : List Char) :
    (line ++ '\n' :: rest).splitOn '\n' = line :: rest.splitOn '\n' := by
  unfold List.splitOn
  rw [List.splitOnP_append_cons _ _ (by simp), List.splitOnP_eq_singleton]
  · rfl
  · intro c hc
    simpa using fun hnew : c = '\n' => h (hnew ▸ hc)

/-- The text is cut into its lines, with nothing behind the last one. -/
theorem splitOn_textOf {lines : List Line} (h : ∀ line ∈ lines, '\n' ∉ line.chars) :
    (textOf lines).toList.splitOn '\n' = lines.map Line.chars ++ [[]] := by
  induction lines with
  | nil => simp [textOf]
  | cons line lines ih =>
    rw [List.forall_mem_cons] at h
    rw [textOf_cons, String.toList_append, line.toList_text, List.append_assoc,
      List.singleton_append, splitOn_append_newline h.1, ih h.2]
    rfl

/-- The indentation of a line ends where its text begins. -/
theorem takeWhile_blanks {rest : List Char} (h : rest.head? ≠ some ' ') (n : Nat) :
    (List.replicate n ' ' ++ rest).takeWhile (· == ' ') = List.replicate n ' ' ∧
      (List.replicate n ' ' ++ rest).dropWhile (· == ' ') = rest := by
  induction n with
  | zero =>
    cases rest with
    | nil => exact ⟨rfl, rfl⟩
    | cons c rest =>
      have hc : (c == ' ') = false := by simpa using h
      simp [hc]
  | succ n ih => simpa [List.replicate_succ] using ih

/-- A line is read by the blanks in front and by what stands behind them. -/
theorem passLine_blanks {rest : List Char} (hne : rest ≠ []) (hhead : rest.head? ≠ some ' ')
    (blocks n : Nat) :
    passLine blocks (List.replicate n ' ' ++ rest) =
      if rest = ['\x7d'] then if 1 ≤ blocks ∧ n = 4 * blocks then some (blocks - 1) else none
      else if n = 4 * (blocks + 1) then some (if rest = ['\x7b'] then blocks + 1 else blocks)
      else none := by
  obtain ⟨htake, hdrop⟩ := takeWhile_blanks hhead n
  have hline : List.replicate n ' ' ++ rest ≠ [] := List.append_ne_nil_of_right_ne_nil _ hne
  simp only [passLine, htake, hdrop, List.length_replicate, if_neg hline]

/-- A line of text at the current depth leaves the depth as it is; a brace changes it by one. -/
theorem passLine_legible {text : String} (h : Legible text) (d : Nat) :
    passLine d (List.replicate (4 * (d + 1)) ' ' ++ text.toList) = some d := by
  have hbegins := h.begins
  unfold Begins isBeginning at hbegins
  cases htext : text.toList with
  | nil => simp [htext] at hbegins
  | cons c rest =>
    have hc : c ≠ ' ' ∧ c ≠ '\x7b' ∧ c ≠ '\x7d' := by
      simpa [htext, beginsLine, and_assoc] using hbegins
    rw [passLine_blanks (List.cons_ne_nil c rest) (by simpa using hc.1), if_neg (by simp [hc.2.2]),
      if_pos rfl, if_neg (by simp [hc.2.1])]

theorem passLine_opening (d : Nat) : passLine d (Line.opening d).chars = some (d + 1) := by
  rw [Line.chars, passLine_blanks (by decide) (by decide), if_neg (by decide), if_pos rfl,
    if_pos rfl]

theorem passLine_closing (d : Nat) : passLine (d + 1) (Line.closing d).chars = some d := by
  rw [Line.chars, passLine_blanks (by decide) (by decide), if_pos rfl,
    if_pos ⟨Nat.le_add_left 1 d, rfl⟩]
  rfl

/-- From a depth on these lines go over blocks that are in order, and end at the same depth. -/
structure Nested (d : Nat) (lines : List Line) : Prop where
  unbroken : ∀ line ∈ lines, '\n' ∉ line.chars
  passed : (lines.map Line.chars).foldlM passLine d = some d

namespace Nested

variable {d : Nat} {lines : List Line}

theorem nil (d : Nat) : Nested d [] := ⟨List.forall_mem_nil _, rfl⟩

/-- Balanced lines at one depth may be put end to end. -/
theorem append {xs ys : List Line} (hx : Nested d xs) (hy : Nested d ys) : Nested d (xs ++ ys) where
  unbroken := List.forall_mem_append.mpr ⟨hx.unbroken, hy.unbroken⟩
  passed := by
    rw [List.map_append, List.foldlM_append, hx.passed]
    exact hy.passed

theorem not_mem_indented {text : List Char} (h : '\n' ∉ text) (n : Nat) :
    '\n' ∉ List.replicate n ' ' ++ text := by
  simp [List.mem_replicate, h]

theorem legible {line : Line} {text : String} (h : Legible text)
    (hline : line.chars = List.replicate (4 * (d + 1)) ' ' ++ text.toList) : Nested d [line] where
  unbroken := by
    rw [List.forall_mem_singleton, hline]
    exact not_mem_indented (fun hmem => h.flat _ hmem rfl) _
  passed := by
    rw [List.map_singleton, List.foldlM_cons, hline, passLine_legible h]
    rfl

theorem code {text : String} (h : Legible text) (d : Nat) : Nested d [.code d text] :=
  legible h rfl

theorem calls {texts : List String} (h : ∀ text ∈ texts, Legible text) (d : Nat) :
    Nested d (texts.map (.call d)) := by
  induction texts with
  | nil => exact nil d
  | cons text texts ih =>
    rw [List.forall_mem_cons] at h
    have hline : Nested d [.call d text] := legible h.1 rfl
    exact hline.append (ih h.2)

/-- Lines that are balanced one deeper are balanced between braces. -/
theorem enclosed (h : Nested (d + 1) lines) : Nested d (.opening d :: lines ++ [.closing d]) where
  unbroken := by
    rw [List.cons_append, List.forall_mem_cons, List.forall_mem_append, List.forall_mem_singleton]
    exact ⟨not_mem_indented (by decide) _, h.unbroken, not_mem_indented (by decide) _⟩
  passed := by
    have hclosing : ([Line.closing d].map Line.chars).foldlM passLine (d + 1) = some d := by
      rw [List.map_singleton, List.foldlM_cons, passLine_closing]
      rfl
    rw [List.cons_append, List.map_cons, List.foldlM_cons, passLine_opening, List.map_append]
    show List.foldlM passLine (d + 1) _ = _
    rw [List.foldlM_append, h.passed]
    exact hclosing

theorem block {head : String} (hhead : Legible head) (h : Nested (d + 1) lines) :
    Nested d (block d head lines) :=
  (code hhead d).append h.enclosed

/-- The text of the lines can be gone over, and no block is left open. -/
theorem openBlocks_textOf (h : Nested 0 lines) : openBlocks (textOf lines) = some 0 := by
  rw [openBlocks, splitOn_textOf h.unbroken, List.foldlM_append, h.passed]
  rfl

end Nested

mutual

/-- The texts that a statement brings along are written on one line: what it remarks, what it
declares, and the counters of its loops. -/
def Stmt.Unbroken : Stmt → Prop
  | .comment text => Flat text
  | .declare declaration => Flat declaration.name
  | .call _ | .blank => True
  | .batched _ body | .forEachTile body => UnbrokenAll body
  | .loop counter _ body => Flat counter ∧ UnbrokenAll body

def UnbrokenAll : List Stmt → Prop
  | [] => True
  | stmt :: rest => stmt.Unbroken ∧ UnbrokenAll rest

end

/-- The place of a tile is written on one line in every scope that batches open. -/
theorem TileScope.flat_index (shape : BatchShape) :
    ∀ tiles ∈ [single, full shape, rest shape, only shape], Flat tiles.index.text := by
  have hloops := flat_loopName
  simp only [loopNames, List.forall_mem_cons] at hloops
  simp [single, full, rest, only, partwise_flat.index, Index.variables, Index.batch, Index.place,
    Index.batchOffset, hloops]

section Blocks

variable {platform : Platform} {thread : Thread}

mutual

/-- A statement is written with balanced braces, at any depth and in any scope, unless one of its own
texts breaks the line. -/
theorem Stmt.nested_lines : ∀ (stmt : Stmt) (d : Nat) (tiles : TileScope), stmt.Unbroken →
    Flat tiles.index.text → Nested d (stmt.lines platform thread d tiles)
  | .comment text, d, _, h, _ => by
    rw [Stmt.lines]
    exact .code (legible_comment h) d
  | .declare declaration, d, _, h, _ => by
    rw [Stmt.lines]
    exact .code (declaration.legible_text h) d
  | .call call, d, _, _, _ => by
    rw [Stmt.lines]
    exact .calls (call.legible_lines platform) d
  | .blank, d, _, _, _ => by
    rw [Stmt.lines]
    exact ⟨by simp [Line.chars], rfl⟩
  | .batched shape body, d, _, h, _ => by
    have hscope := TileScope.flat_index shape
    simp only [List.forall_mem_cons] at hscope
    have hloop : Legible (loopHead "batch" shape.fullBatches) :=
      legible_loopHead (flat_loopName _ (by decide)) _
    rw [Stmt.lines]
    refine Nested.append ?_ ?_
    · split
      · exact .nil d
      · exact .block hloop (nested_linesOf body (d + 1) _ h hscope.2.1)
    · split
      · exact .nil d
      · split
        · exact nested_linesOf body d _ h hscope.2.2.2.1
        · exact ((Nested.code (legible_offset _) (d + 1)).append
            (nested_linesOf body (d + 1) _ h hscope.2.2.1)).enclosed
  | .forEachTile body, d, tiles, h, hindex => by
    have hbody := nested_linesOf body (d + 1) tiles h hindex
    rw [Stmt.lines]
    refine .block (legible_loopHead (flat_loopName _ (by decide)) _) (Nested.append ?_ hbody)
    split
    · exact .nil (d + 1)
    · exact .code (legible_tile hindex) (d + 1)
  | .loop counter count body, d, tiles, h, hindex => by
    rw [Stmt.lines]
    exact .block (legible_loopHead h.1 count) (nested_linesOf body (d + 1) tiles h.2 hindex)

/-- Statements are written in blocks that are in order, whatever they are nested in. -/
theorem nested_linesOf : ∀ (body : List Stmt) (d : Nat) (tiles : TileScope), UnbrokenAll body →
    Flat tiles.index.text → Nested d (linesOf platform thread d tiles body)
  | [], d, _, _, _ => by
    rw [linesOf]
    exact .nil d
  | stmt :: rest, d, tiles, h, hindex => by
    rw [linesOf]
    exact (stmt.nested_lines d tiles h.1 hindex).append (nested_linesOf rest d tiles h.2 hindex)

end

end Blocks

/-! ## Lines of calls -/

/-- The line is part of a device call. -/
def Line.isCall : Line → Bool
  | .call .. => true
  | _ => false

mutual

/-- A statement with the calls in it left out. -/
def Stmt.withoutCalls : Stmt → List Stmt
  | .comment text => [.comment text]
  | .declare declaration => [.declare declaration]
  | .call _ => []
  | .batched shape body => [.batched shape (withoutCalls body)]
  | .forEachTile body => [.forEachTile (withoutCalls body)]
  | .loop counter count body => [.loop counter count (withoutCalls body)]
  | .blank => [.blank]

/-- Statements with all calls left out. -/
def withoutCalls : List Stmt → List Stmt
  | [] => []
  | stmt :: rest => stmt.withoutCalls ++ withoutCalls rest

end

section Calls

variable {platform platform' : Platform} {thread : Thread}

theorem linesOf_singleton (d : Nat) (tiles : TileScope) (stmt : Stmt) :
    linesOf platform thread d tiles [stmt] = stmt.lines platform thread d tiles := by
  rw [linesOf, linesOf, List.append_nil]

theorem filter_enclosed (d : Nat) (lines : List Line) :
    (Line.opening d :: lines ++ [Line.closing d]).filter (!·.isCall) =
      .opening d :: lines.filter (!·.isCall) ++ [.closing d] := by
  rw [List.cons_append, List.filter_cons_of_pos rfl, List.filter_append]
  rfl

theorem filter_block (d : Nat) (head : String) (lines : List Line) :
    (block d head lines).filter (!·.isCall) = block d head (lines.filter (!·.isCall)) := by
  rw [block, List.cons_append, List.filter_cons_of_pos rfl, filter_enclosed]
  rfl

mutual

/-- Without the lines of calls, the text of a statement is the text of what is left when the calls are
taken out of it, on any other platform as well. -/
theorem Stmt.filter_lines : ∀ (stmt : Stmt) (d : Nat) (tiles : TileScope),
    (stmt.lines platform thread d tiles).filter (!·.isCall) =
      linesOf platform' thread d tiles stmt.withoutCalls
  | .comment _, _, _ | .declare _, _, _ | .blank, _, _ => by
    rw [Stmt.withoutCalls, linesOf_singleton, Stmt.lines, Stmt.lines]
    rfl
  | .call call, d, _ => by
    rw [Stmt.lines, Stmt.withoutCalls, linesOf, List.filter_eq_nil_iff, List.forall_mem_map]
    simp [Line.isCall]
  | .loop counter count body, d, tiles => by
    rw [Stmt.withoutCalls, linesOf_singleton, Stmt.lines, Stmt.lines, filter_block,
      filter_linesOf body]
  | .forEachTile body, d, tiles => by
    rw [Stmt.withoutCalls, linesOf_singleton, Stmt.lines, Stmt.lines, filter_block,
      List.filter_append, filter_linesOf body]
    split <;> rfl
  | .batched shape body, d, tiles => by
    rw [Stmt.withoutCalls, linesOf_singleton, Stmt.lines, Stmt.lines, List.filter_append]
    congr 1
    · split
      · rfl
      · rw [filter_block, filter_linesOf body]
    · split
      · rfl
      · split
        · exact filter_linesOf body d _
        · rw [← filter_linesOf body (d + 1) (.rest shape)]
          exact filter_enclosed d (.code (d + 1) _ :: _)

/-- Without the lines of calls, statements are written as they are without calls, and for any
platform. -/
theorem filter_linesOf : ∀ (body : List Stmt) (d : Nat) (tiles : TileScope),
    (linesOf platform thread d tiles body).filter (!·.isCall) =
      linesOf platform' thread d tiles (withoutCalls body)
  | [], d, tiles => by
    rw [withoutCalls, linesOf, linesOf, List.filter_nil]
  | stmt :: rest, d, tiles => by
    rw [withoutCalls, linesOf, linesOf_append, List.filter_append, stmt.filter_lines d tiles,
      filter_linesOf rest d tiles]

end

end Calls

/-- Body of a thread's function without the lines of its calls. -/
def fixedText (platform : Platform) (thread : Thread) (body : List Stmt) : String :=
  textOf ((linesOf platform thread 0 .single body).filter (!·.isCall))

/-- What a platform has a say in is left out together with the calls. -/
theorem fixedText_eq (platform platform' : Platform) (thread : Thread) (body : List Stmt) :
    fixedText platform thread body = bodyText platform' thread (withoutCalls body) :=
  congrArg textOf (filter_linesOf body 0 .single)

/-- **Rendering is compositional and keeps its blocks in order.** A statement leaves depth and batch
as it finds them, so the text of two lists in a row is the text of the first followed by that of the
second. If nothing that the statements bring along has a line break, every block ends that is
started, in the right order, and the blanks in front of a line are those of the blocks around it.
Only the lines of calls differ from platform to platform. -/
theorem rendering_composes (platform platform' : Platform) (thread : Thread) (xs ys : List Stmt) :
    (∀ (stmt : Stmt) (w : Writer), w.Level (stmt.write platform thread w)) ∧
      bodyText platform thread xs = (writeAll platform thread xs .empty).out ∧
      bodyText platform thread (xs ++ ys) =
        bodyText platform thread xs ++ bodyText platform thread ys ∧
      (UnbrokenAll xs → openBlocks (bodyText platform thread xs) = some 0) ∧
      fixedText platform thread xs = fixedText platform' thread xs ∧
      fixedText platform thread xs = bodyText platform' thread (withoutCalls xs) := by
  have hfixed := fixedText_eq platform platform' thread xs
  have hfixed' := fixedText_eq platform' platform' thread xs
  refine ⟨Stmt.level_write, bodyText_eq_out xs, bodyText_append xs ys, fun h => ?_,
    hfixed.trans hfixed'.symm, hfixed⟩
  have hnested : Nested 0 (linesOf platform thread 0 .single xs) :=
    nested_linesOf xs 0 .single h (TileScope.flat_index ⟨1, 0, 0⟩ _ (List.mem_cons_self ..))
  exact hnested.openBlocks_textOf

/-- Batches around batches, with a rest outside and no full batch inside. -/
def batchesInTiles : List Stmt :=
  [ .comment "\x7b", .declare (.format "pack_src_format0" .float16 true),
    .batched (.split 5 2)
      [ .call .packWaitForMath,
        .forEachTile
          [.batched (.split 3 4) [.forEachTile [.call .signalUnpack]], .forEachTile [.blank]] ],
    .blank, .loop "kt" 0 [] ]

theorem rendering_composes_batchesInTiles :
    UnbrokenAll batchesInTiles ∧ openBlocks (bodyText .wormhole .pack batchesInTiles) = some 0 :=
  have h : UnbrokenAll batchesInTiles := by
    simp [batchesInTiles, UnbrokenAll, Stmt.Unbroken, Flat, Declaration.name]
  ⟨h, (rendering_composes .wormhole .quasar .pack batchesInTiles []).2.2.2.1 h⟩

/-- A line break in a remark may end a block that is not open. -/
example : openBlocks (bodyText .wormhole .pack [.comment "\n\x7d"]) = none := by
  decide +kernel

end TileFusion
