import TileFusion.Proofs.TileOrder

/-!
# The loops as they are written

A kernel is text: loops over 32-bit counters, and constants that hold the place of a tile.
`unrollAll` follows the statements that the text is made from, and it counts without a limit. This
file keeps the written form as a tree, prints it, and runs it in words:

> `linesOf_eq`: the lines of a thread are those of its code;
> `runAll_codeOf`: if every loop of a thread is counted in words, its code makes the calls of
> `unrollAll`, and the variables hold the same numbers, cut to words.

Whether anything is cut is a matter of the expressions: `Index.Exact` says that none of their parts
leaves a word, and then the value in words is the value in numbers (`Index.toNat_word`).
-/

namespace TileFusion

/-! ## Code and its text -/

/-- A piece of code, as it is written. -/
inductive Code where
  /-- An empty line. -/
  | blank
  /-- A line that sets no variable of an index expression. -/
  | text (text : String)
  /-- A device call. -/
  | call (call : Call)
  /-- A constant, which holds up to the end of the block around it. -/
  | constant (name : String) (value : Index)
  /-- A block on its own. -/
  | block (body : List Code)
  /-- A loop that counts up from 0. -/
  | loop (counter : String) (count : Nat) (body : List Code)

/-- Text of a constant. -/
def constantText (name value : String) : String :=
  s!"const uint32_t {name} = {value};"

mutual

/-- Lines of a piece of code at a depth. -/
def Code.lines (platform : Platform) (depth : Nat) : Code → List Line
  | .blank => [.blank]
  | .text text => [.code depth text]
  | .call call => (call.lines platform).map (.call depth)
  | .constant name value => [.code depth (constantText name value.text)]
  | .block body => .opening depth :: codeLines platform (depth + 1) body ++ [.closing depth]
  | .loop counter count body =>
    TileFusion.block depth (loopHead counter count) (codeLines platform (depth + 1) body)

/-- Lines of pieces in a row. -/
def codeLines (platform : Platform) (depth : Nat) : List Code → List Line
  | [] => []
  | code :: rest => code.lines platform depth ++ codeLines platform depth rest

end

mutual

/-- The code of a statement in a thread, with the batch around it. The math thread goes by places in
the accumulator and declares no place in the output. -/
def Stmt.code (thread : Thread) (scope : TileScope) : Stmt → List Code
  | .comment text => [.text s!"// {text}"]
  | .declare declaration => [.text declaration.text]
  | .call call => [.call call]
  | .batched shape body =>
    (if shape.fullBatches = 0 then []
      else [.loop "batch" shape.fullBatches (codeOf thread (.full shape) body)]) ++
      (if shape.remainder = 0 then []
        else if shape.fullBatches = 0 then codeOf thread (.only shape) body
        else [.block (.constant "batch_offset" (.const shape.offset) ::
          codeOf thread (.rest shape) body)])
  | .forEachTile body =>
    [.loop "i" scope.count
      ((if thread = .math then [] else [.constant "tile_idx" scope.index]) ++
        codeOf thread scope body)]
  | .loop counter count body => [.loop counter count (codeOf thread scope body)]
  | .blank => [.blank]

/-- The code of statements in a row. -/
def codeOf (thread : Thread) (scope : TileScope) : List Stmt → List Code
  | [] => []
  | stmt :: rest => stmt.code thread scope ++ codeOf thread scope rest

end

theorem codeOf_append (thread : Thread) (scope : TileScope) (xs ys : List Stmt) :
    codeOf thread scope (xs ++ ys) = codeOf thread scope xs ++ codeOf thread scope ys := by
  induction xs with
  | nil => rfl
  | cons x xs ih => simp [codeOf, ih]

theorem codeOf_singleton (thread : Thread) (scope : TileScope) (stmt : Stmt) :
    codeOf thread scope [stmt] = stmt.code thread scope := by
  rw [codeOf, codeOf, List.append_nil]

section Lines

variable {platform : Platform} {thread : Thread}

theorem constantText_tile (value : String) :
    constantText "tile_idx" value = s!"const uint32_t tile_idx = {value};" := rfl

theorem constantText_offset (value : Nat) :
    constantText "batch_offset" (Index.const value).text =
      s!"const uint32_t batch_offset = {value};" := rfl

@[simp] theorem codeLines_append (depth : Nat) (xs ys : List Code) :
    codeLines platform depth (xs ++ ys) =
      codeLines platform depth xs ++ codeLines platform depth ys := by
  induction xs with
  | nil => rfl
  | cons x xs ih => simp [codeLines, ih]

mutual

theorem Stmt.lines_eq : ∀ (stmt : Stmt) (depth : Nat) (scope : TileScope),
    stmt.lines platform thread depth scope = codeLines platform depth (stmt.code thread scope)
  | .comment _, _, _ | .declare _, _, _ | .call _, _, _ | .blank, _, _ => by
    simp [Stmt.lines, Stmt.code, codeLines, Code.lines]
  | .loop counter count body, depth, scope => by
    simp [Stmt.lines, Stmt.code, codeLines, Code.lines, linesOf_eq body]
  | .forEachTile body, depth, scope => by
    have hbody := linesOf_eq body (depth + 1) scope
    by_cases h : thread = .math
    · subst h
      simp [Stmt.lines, Stmt.code, codeLines, Code.lines, hbody]
    · simp [Stmt.lines, Stmt.code, codeLines, Code.lines, hbody, h, constantText_tile]
  | .batched shape body, depth, scope => by
    simp only [Stmt.lines, Stmt.code, codeLines_append, linesOf_eq body]
    congr 1
    · split <;> simp [codeLines, Code.lines]
    · split
      · rfl
      · split <;> simp [codeLines, Code.lines, constantText_offset]

/-- The lines of a thread are those of its code. -/
theorem linesOf_eq : ∀ (body : List Stmt) (depth : Nat) (scope : TileScope),
    linesOf platform thread depth scope body = codeLines platform depth (codeOf thread scope body)
  | [], _, _ => by simp [linesOf, codeOf, codeLines]
  | stmt :: rest, depth, scope => by
    rw [linesOf, codeOf, codeLines_append, Stmt.lines_eq stmt, linesOf_eq rest]

end

end Lines

/-! ## Variables of a thread -/

/-- What the 32-bit variables of a thread hold. -/
abbrev Variables := String → UInt32

namespace Variables

/-- One variable changed. -/
def set (vars : Variables) (name : String) (value : UInt32) : Variables :=
  fun x => if x = name then value else vars x

/-- The numbers that the variables hold. -/
def turn (vars : Variables) : Turn :=
  fun x => (vars x).toNat

end Variables

/-- The variables of a thread at a turn of the loops. There is no place in the output for the math
thread. -/
def Turn.variables (thread : Thread) (turn : Turn) : Variables :=
  fun x => if thread = .math ∧ x = "tile_idx" then 0 else .ofNat (turn x)

theorem Turn.variables_set {thread : Thread} {name : String}
    (h : thread = .math → name ≠ "tile_idx") (turn : Turn) (value : Nat) :
    (turn.set name value).variables thread = (turn.variables thread).set name (.ofNat value) := by
  funext x
  unfold Turn.variables Variables.set Turn.set
  by_cases hx : x = name
  · subst hx
    rw [if_pos rfl, if_pos rfl, if_neg fun hm => h hm.1 hm.2]
  · rw [if_neg hx, if_neg hx]

/-- A place in the output is not seen by the math thread. -/
theorem Turn.variables_math (turn : Turn) (value : Nat) :
    (turn.set "tile_idx" value).variables .math = turn.variables .math := by
  funext x
  unfold Turn.variables Turn.set
  by_cases hx : x = "tile_idx" <;> simp [hx]

/-- A variable that the thread has holds its number, if that is a word. -/
theorem Turn.toNat_variables {thread : Thread} {turn : Turn} {name : String}
    (hseen : ¬(thread = .math ∧ name = "tile_idx")) (h : turn name < wordLimit) :
    (turn.variables thread name).toNat = turn name := by
  rw [Turn.variables, if_neg hseen]
  exact UInt32.toNat_ofNat_of_lt' h

namespace Index

/-- Value in words, where sums and products wrap. -/
def word (vars : Variables) : Index → UInt32
  | const value => .ofNat value
  | var name => vars name
  | add x y => x.word vars + y.word vars
  | mul x y => x.word vars * y.word vars
  | div x y => x.word vars / y.word vars
  | mod x y => x.word vars % y.word vars

/-- No part of an expression leaves a word, and nothing is divided by zero. -/
def Exact (turn : Turn) : Index → Prop
  | const value => value < wordLimit
  | var name => turn name < wordLimit
  | add x y => x.Exact turn ∧ y.Exact turn ∧ x.eval turn + y.eval turn < wordLimit
  | mul x y => x.Exact turn ∧ y.Exact turn ∧ x.eval turn * y.eval turn < wordLimit
  | div x y => x.Exact turn ∧ y.Exact turn ∧ y.eval turn ≠ 0
  | mod x y => x.Exact turn ∧ y.Exact turn ∧ y.eval turn ≠ 0

/-- The value in words is the value in numbers as long as nothing wraps. -/
theorem toNat_word {vars : Variables} : ∀ {x : Index}, x.Exact vars.turn →
    (x.word vars).toNat = x.eval vars.turn
  | const value, h => UInt32.toNat_ofNat_of_lt' h
  | var name, _ => rfl
  | add x y, h => by
    obtain ⟨hx, hy, hlt⟩ := h
    rw [word, eval, UInt32.toNat_add, toNat_word hx, toNat_word hy]
    exact Nat.mod_eq_of_lt hlt
  | mul x y, h => by
    obtain ⟨hx, hy, hlt⟩ := h
    rw [word, eval, UInt32.toNat_mul, toNat_word hx, toNat_word hy]
    exact Nat.mod_eq_of_lt hlt
  | div x y, h => by
    obtain ⟨hx, hy, -⟩ := h
    rw [word, eval, UInt32.toNat_div, toNat_word hx, toNat_word hy]
  | mod x y, h => by
    obtain ⟨hx, hy, -⟩ := h
    rw [word, eval, UInt32.toNat_mod, toNat_word hx, toNat_word hy]

/-- Sums and products of counters and constants. -/
def Plain : Index → Prop
  | const _ => True
  | var name => name ≠ "tile_idx"
  | add x y => x.Plain ∧ y.Plain
  | mul x y => x.Plain ∧ y.Plain
  | div _ _ => False
  | mod _ _ => False

/-- Sums and products may be cut to words at the end as well as at every step. -/
theorem word_variables {thread : Thread} {turn : Turn} : ∀ {x : Index}, x.Plain →
    x.word (turn.variables thread) = .ofNat (x.eval turn)
  | const value, _ => rfl
  | var name, h => by
    show turn.variables thread name = .ofNat (turn name)
    rw [Turn.variables, if_neg fun hm => h hm.2]
  | add x y, h => by
    rw [word, eval, word_variables h.1, word_variables h.2, UInt32.ofNat_add]
  | mul x y, h => by
    rw [word, eval, word_variables h.1, word_variables h.2, UInt32.ofNat_mul]

/-- An expression that the thread can read has its value from the variables of the thread, unless a
part of it leaves a word. -/
theorem Exact.variables {thread : Thread} {turn : Turn} : ∀ {x : Index}, x.Exact turn →
    (thread = .math → x.Plain) →
    x.Exact (turn.variables thread).turn ∧ x.eval (turn.variables thread).turn = x.eval turn
  | const value, h, _ => ⟨h, rfl⟩
  | var name, h, hseen => by
    have hvalue : (turn.variables thread).turn name = turn name :=
      Turn.toNat_variables (fun hm => hseen hm.1 hm.2) h
    refine ⟨?_, hvalue⟩
    show (turn.variables thread).turn name < wordLimit
    rwa [hvalue]
  | add x y, h, hseen | mul x y, h, hseen => by
    obtain ⟨hx, hy, hlt⟩ := h
    obtain ⟨hx, hxeval⟩ := hx.variables fun hm => (hseen hm).1
    obtain ⟨hy, hyeval⟩ := hy.variables fun hm => (hseen hm).2
    simp only [Exact, eval, hxeval, hyeval]
    exact ⟨⟨hx, hy, hlt⟩, trivial⟩
  | div x y, h, hseen | mod x y, h, hseen => by
    obtain ⟨hx, hy, hne⟩ := h
    obtain ⟨hx, hxeval⟩ := hx.variables fun hm => (hseen hm).elim
    obtain ⟨hy, hyeval⟩ := hy.variables fun hm => (hseen hm).elim
    simp only [Exact, eval, hxeval, hyeval]
    exact ⟨⟨hx, hy, hne⟩, trivial⟩

end Index

/-! ## Running code -/

/-- The values of a counter that goes up from `n` while it is below `bound`. -/
def countUp (n bound : UInt32) : List UInt32 :=
  if n < bound then n :: countUp (n + 1) bound else []
termination_by bound.toNat - n.toNat
decreasing_by
  rename_i h
  have hlt := UInt32.lt_iff_toNat_lt.mp h
  have hbound := bound.toNat_lt
  have hnext : (n + 1).toNat = n.toNat + 1 := by
    rw [UInt32.toNat_add, UInt32.toNat_one]
    omega
  omega

/-- A call as it is made. -/
structure Step where
  /-- The call. -/
  call : Call
  /-- The variables around it. -/
  vars : Variables

/-- What a piece leaves in the variables for those behind it. -/
def Code.bind (vars : Variables) : Code → Variables
  | .constant name value => vars.set name (value.word vars)
  | _ => vars

mutual

/-- The calls that a piece of code makes. -/
def Code.run (vars : Variables) : Code → List Step
  | .call call => [⟨call, vars⟩]
  | .block body => runAll vars body
  | .loop counter count body =>
    (countUp 0 (.ofNat count)).flatMap fun n => runAll (vars.set counter n) body
  | .blank | .text _ | .constant _ _ => []

/-- The calls that pieces in a row make. -/
def runAll (vars : Variables) : List Code → List Step
  | [] => []
  | code :: rest => code.run vars ++ runAll (code.bind vars) rest

end

/-- A call that is made at a turn of the loops. -/
def Event.step (thread : Thread) (e : Event) : Step :=
  ⟨e.call, e.turn.variables thread⟩

/-- A counter that stays in words goes through all numbers below its bound. -/
theorem countUp_eq {bound : Nat} (hbound : bound < wordLimit) :
    ∀ {left n : Nat}, n + left = bound →
      countUp (.ofNat n) (.ofNat bound) = (List.range' n left).map UInt32.ofNat
  | 0, n, h => by
    obtain rfl : n = bound := h
    rw [countUp, if_neg (UInt32.lt_irrefl _)]
    rfl
  | left + 1, n, h => by
    have hlt : UInt32.ofNat n < UInt32.ofNat bound := by
      rw [UInt32.lt_iff_toNat_lt, UInt32.toNat_ofNat_of_lt' hbound,
        UInt32.toNat_ofNat_of_lt' (show n < wordLimit by omega)]
      omega
    have hnext : UInt32.ofNat n + 1 = .ofNat (n + 1) := (UInt32.ofNat_add ..).symm
    have hleft : n + 1 + left = bound := by omega
    rw [countUp, if_pos hlt, hnext, countUp_eq hbound hleft, List.range'_succ, List.map_cons]

theorem countUp_zero {bound : Nat} (hbound : bound < wordLimit) :
    countUp 0 (.ofNat bound) = (List.range bound).map UInt32.ofNat := by
  rw [List.range_eq_range']
  exact countUp_eq hbound (Nat.zero_add bound)

/-! ## Code that leaves no constant behind -/

/-- A piece that leaves the variables as they are for those behind it. -/
def Code.Closed (code : Code) : Prop :=
  ∀ vars : Variables, code.bind vars = vars

theorem Code.closed_of_mem {piece code : Code} (hpiece : piece.Closed) (h : code ∈ [piece]) :
    code.Closed := by
  rwa [List.mem_singleton.mp h]

theorem runAll_append {xs : List Code} (h : ∀ code ∈ xs, code.Closed) (vars : Variables)
    (ys : List Code) : runAll vars (xs ++ ys) = runAll vars xs ++ runAll vars ys := by
  induction xs with
  | nil => rfl
  | cons x xs ih =>
    rw [List.forall_mem_cons] at h
    rw [List.cons_append, runAll, runAll, h.1 vars, ih h.2, List.append_assoc]

mutual

theorem Stmt.closed_code {thread : Thread} : ∀ (stmt : Stmt) (scope : TileScope),
    ∀ code ∈ stmt.code thread scope, code.Closed
  | .comment _, _, _, h | .declare _, _, _, h | .call _, _, _, h | .forEachTile _, _, _, h
  | .loop _ _ _, _, _, h | .blank, _, _, h => Code.closed_of_mem (fun _ => rfl) h
  | .batched shape body, _, code, h => by
    rw [Stmt.code, List.mem_append] at h
    rcases h with h | h
    · split at h
      next => simp at h
      next => exact Code.closed_of_mem (fun _ => rfl) h
    · split at h
      next => simp at h
      next =>
        split at h
        next => exact closed_codeOf body _ code h
        next => exact Code.closed_of_mem (fun _ => rfl) h

/-- The constants of a statement stand in blocks of its own. -/
theorem closed_codeOf {thread : Thread} : ∀ (body : List Stmt) (scope : TileScope),
    ∀ code ∈ codeOf thread scope body, code.Closed
  | [], _, _, h => by simp [codeOf] at h
  | stmt :: rest, scope, code, h => by
    rw [codeOf, List.mem_append] at h
    rcases h with h | h
    · exact Stmt.closed_code stmt scope code h
    · exact closed_codeOf rest scope code h

end

/-! ## From turns to words -/

section Run

variable {thread : Thread} {turn : Turn}

/-- A counted loop runs its body at every number below its count. -/
theorem run_loop {count : Nat} (hcount : count < wordLimit) {counter : String}
    (hcounter : thread = .math → counter ≠ "tile_idx") (body : List Code) :
    (Code.loop counter count body).run (turn.variables thread) =
      (List.range count).flatMap fun n => runAll ((turn.set counter n).variables thread) body := by
  rw [Code.run, countUp_zero hcount, List.flatMap_map]
  congr 1
  funext n
  rw [Turn.variables_set hcounter]

/-- A batched statement runs its body batch by batch. -/
theorem run_batched {shape : BatchShape} (hfull : shape.fullBatches < wordLimit)
    (scope : TileScope) (body : List Stmt) :
    runAll (turn.variables thread) ((Stmt.batched shape body).code thread scope) =
      (shape.turns turn).flatMap fun x =>
        runAll (x.2.variables thread) (codeOf thread x.1 body) := by
  have hname : thread = .math → "batch" ≠ "tile_idx" := fun _ => by decide
  have hoffset : thread = .math → "batch_offset" ≠ "tile_idx" := fun _ => by decide
  have hclosed : ∀ code ∈ (if shape.fullBatches = 0 then []
      else [Code.loop "batch" shape.fullBatches (codeOf thread (.full shape) body)]),
      code.Closed := by
    intro code h
    split at h
    next => simp at h
    next => exact Code.closed_of_mem (fun _ => rfl) h
  rw [Stmt.code, runAll_append hclosed, BatchShape.turns, List.flatMap_append]
  congr 1
  · rw [List.flatMap_map]
    split
    next h => simp [h, runAll]
    next =>
      rw [runAll, runAll, List.append_nil, run_loop hfull hname]
  · split
    next => rfl
    next =>
      split
      next => rw [List.flatMap_singleton]
      next =>
        rw [List.flatMap_singleton, Turn.variables_set hoffset, runAll, runAll, List.append_nil,
          Code.run, runAll, Code.run, List.nil_append]
        rfl

/-- A loop over tiles runs its body at the turns of its batch. -/
theorem run_forEachTile {scope : TileScope} (hcount : scope.count < wordLimit)
    (hplain : scope.index.Plain) (body : List Stmt) :
    runAll (turn.variables thread) ((Stmt.forEachTile body).code thread scope) =
      (scope.turns turn).flatMap fun t =>
        runAll (t.variables thread) (codeOf thread scope body) := by
  rw [Stmt.code, runAll, runAll, List.append_nil, run_loop hcount fun _ => by decide,
    TileScope.turns, List.flatMap_map]
  congr 1
  funext n
  split
  next h =>
    subst h
    rw [List.nil_append, Turn.variables_math]
  next h =>
    have hname : thread = .math → "tile_idx" ≠ "tile_idx" := fun hm => absurd hm h
    rw [Turn.variables_set hname (turn.set "i" n), ← Index.word_variables hplain]
    rfl

/-! ## The calls of the code -/

/-- Tiles that are counted in words, and found by sums and products. -/
structure TileScope.InWords (scope : TileScope) : Prop where
  count : scope.count < wordLimit
  plain : scope.index.Plain

theorem TileScope.inWords_single : TileScope.single.InWords :=
  ⟨by decide, trivial⟩

mutual

/-- The loops of a statement are counted in words. -/
def Stmt.InWords : Stmt → Prop
  | .batched shape body =>
    shape.fullBatches < wordLimit ∧ shape.batchSize < wordLimit ∧ shape.remainder < wordLimit ∧
      InWordsAll body
  | .forEachTile body => InWordsAll body
  | .loop counter count body => counter ≠ "tile_idx" ∧ count < wordLimit ∧ InWordsAll body
  | .comment _ | .declare _ | .call _ | .blank => True

/-- The loops of statements in a row are counted in words. -/
def InWordsAll : List Stmt → Prop
  | [] => True
  | stmt :: rest => stmt.InWords ∧ InWordsAll rest

end

attribute [simp] Stmt.InWords InWordsAll

@[simp] theorem inWordsAll_append (xs ys : List Stmt) :
    InWordsAll (xs ++ ys) ↔ InWordsAll xs ∧ InWordsAll ys := by
  induction xs with
  | nil => simp
  | cons x xs ih => simp [ih, and_assoc]

@[simp] theorem inWordsAll_map_call (calls : List Call) : InWordsAll (calls.map Stmt.call) := by
  induction calls with
  | nil => trivial
  | cons call calls ih => exact ⟨trivial, ih⟩

theorem inWordsAll_flatMap {α : Type} {f : α → List Stmt} {xs : List α}
    (h : ∀ x ∈ xs, InWordsAll (f x)) : InWordsAll (xs.flatMap f) := by
  induction xs with
  | nil => trivial
  | cons x xs ih =>
    rw [List.forall_mem_cons] at h
    rw [List.flatMap_cons, inWordsAll_append]
    exact ⟨h.1, ih h.2⟩

theorem BatchShape.inWords_of_mem {shape : BatchShape} (hsize : shape.batchSize < wordLimit)
    (hrest : shape.remainder < wordLimit) {x : TileScope × Turn} (hx : x ∈ shape.turns turn) :
    x.1.InWords := by
  obtain ⟨n, -, rfl⟩ | ⟨-, ⟨-, rfl⟩ | rfl⟩ := BatchShape.turns_cases hx
  · exact ⟨hsize, by simp [TileScope.full, Index.Plain, Index.batch, Index.place]⟩
  · exact ⟨hrest, by simp [TileScope.only, Index.Plain, Index.place]⟩
  · exact ⟨hrest, by simp [TileScope.rest, Index.Plain, Index.batchOffset, Index.place]⟩

mutual

theorem Stmt.runAll_code : ∀ (stmt : Stmt) {scope : TileScope} {turn : Turn}, stmt.InWords →
    scope.InWords → runAll (turn.variables thread) (stmt.code thread scope) =
      (stmt.unroll scope turn).map (Event.step thread)
  | .comment _, _, _, _, _ => rfl
  | .declare _, _, _, _, _ => rfl
  | .call _, _, _, _, _ => rfl
  | .blank, _, _, _, _ => rfl
  | .batched shape body, scope, turn, h, _ => by
    obtain ⟨hfull, hsize, hrest, hbody⟩ := h
    rw [run_batched hfull, Stmt.unroll, List.map_flatMap]
    refine List.flatMap_congr fun x hx => ?_
    exact runAll_codeOf body hbody (BatchShape.inWords_of_mem hsize hrest hx)
  | .forEachTile body, scope, turn, h, hscope => by
    rw [run_forEachTile hscope.count hscope.plain, Stmt.unroll, List.map_flatMap]
    exact List.flatMap_congr fun t _ => runAll_codeOf body h hscope
  | .loop counter count body, scope, turn, h, hscope => by
    obtain ⟨hcounter, hcount, hbody⟩ := h
    rw [Stmt.code, runAll, runAll, List.append_nil, run_loop hcount fun _ => hcounter, Stmt.unroll,
      List.map_flatMap]
    exact List.flatMap_congr fun n _ => runAll_codeOf body hbody hscope

/-- The code of a thread makes the calls of its statements. -/
theorem runAll_codeOf : ∀ (body : List Stmt) {scope : TileScope} {turn : Turn}, InWordsAll body →
    scope.InWords → runAll (turn.variables thread) (codeOf thread scope body) =
      (unrollAll scope turn body).map (Event.step thread)
  | [], _, _, _, _ => rfl
  | stmt :: rest, scope, turn, h, hscope => by
    rw [codeOf, runAll_append (Stmt.closed_code stmt scope), Stmt.runAll_code stmt h.1 hscope,
      runAll_codeOf rest h.2 hscope, unrollAll, List.map_append]

end

end Run

end TileFusion
