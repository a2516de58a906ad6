import TileFusion.Program.Lowering
import TileFusion.Source.Line

/-!
# Running a thread program

A thread makes its calls one after the other. `unrollAll` lists them: batches, tiles and counted
loops are opened turn by turn, and every call comes with what the loop variables hold when it is
made. The turns are those of the written code, since the place of a tile is the value of the very
expression that the code assigns to `tile_idx`.
-/

namespace TileFusion

/-- What the loop variables hold before any loop. -/
def Turn.start : Turn := fun _ => 0

/-- A call as it is made: with what the loop variables around it hold. -/
structure Event where
  /-- The call. -/
  call : Call
  /-- The loop variables. -/
  turn : Turn

/-- The batches of a shape, in order: full ones, and then one with what is left. -/
def BatchShape.turns (shape : BatchShape) (turn : Turn) : List (TileScope × Turn) :=
  (List.range shape.fullBatches).map (fun n => (.full shape, turn.set "batch" n)) ++
    if shape.remainder = 0 then []
    else if shape.fullBatches = 0 then [(.only shape, turn)]
    else [(.rest shape, turn.set "batch_offset" shape.offset)]

/-- The tiles of a batch, in order. -/
def TileScope.turns (scope : TileScope) (turn : Turn) : List Turn :=
  (List.range scope.count).map fun n =>
    (turn.set "i" n).set "tile_idx" (scope.index.eval (turn.set "i" n))

mutual

/-- The calls that a statement makes, with the batch and the loop variables around it. -/
def Stmt.unroll (scope : TileScope) (turn : Turn) : Stmt → List Event
  | .comment _ => []
  | .declare _ => []
  | .call call => [⟨call, turn⟩]
  | .batched shape body => (shape.turns turn).flatMap fun x => unrollAll x.1 x.2 body
  | .forEachTile body => (scope.turns turn).flatMap fun t => unrollAll scope t body
  | .loop counter count body =>
    (List.range count).flatMap fun n => unrollAll scope (turn.set counter n) body
  | .blank => []

/-- The calls that statements in a row make. -/
def unrollAll (scope : TileScope) (turn : Turn) : List Stmt → List Event
  | [] => []
  | stmt :: rest => stmt.unroll scope turn ++ unrollAll scope turn rest

end

/-- The calls that a thread makes. -/
def ThreadProgram.events (t : ThreadProgram) : List Event :=
  unrollAll .single .start t.body

attribute [simp] Stmt.unroll unrollAll

@[simp] theorem unrollAll_append (scope : TileScope) (turn : Turn) (xs ys : List Stmt) :
    unrollAll scope turn (xs ++ ys) = unrollAll scope turn xs ++ unrollAll scope turn ys := by
  induction xs with
  | nil => rfl
  | cons x xs ih => simp [ih]

@[simp] theorem unrollAll_map_call (scope : TileScope) (turn : Turn) (calls : List Call) :
    unrollAll scope turn (calls.map Stmt.call) = calls.map fun call => ⟨call, turn⟩ := by
  induction calls with
  | nil => rfl
  | cons call calls ih => simp [ih]

theorem unrollAll_flatMap {α : Type} (scope : TileScope) (turn : Turn) (f : α → List Stmt)
    (xs : List α) :
    unrollAll scope turn (xs.flatMap f) = xs.flatMap fun x => unrollAll scope turn (f x) := by
  induction xs with
  | nil => rfl
  | cons x xs ih => simp [ih]

/-- A thread makes the calls of its sections, one section after the other. -/
theorem events_ofSections (sections : List Section) :
    (ThreadProgram.ofSections sections).events =
      sections.flatMap fun s => unrollAll .single .start s.body := by
  unfold ThreadProgram.events ThreadProgram.ofSections
  exact unrollAll_flatMap ..

/-- A batch is full, or it is the one behind the full ones, or the only one. -/
theorem BatchShape.turns_cases {shape : BatchShape} {turn : Turn} {x : TileScope × Turn}
    (hx : x ∈ shape.turns turn) :
    (∃ n < shape.fullBatches, x = (.full shape, turn.set "batch" n)) ∨
      shape.remainder ≠ 0 ∧ (shape.fullBatches = 0 ∧ x = (.only shape, turn) ∨
        x = (.rest shape, turn.set "batch_offset" shape.offset)) := by
  rcases List.mem_append.mp hx with hx | hx
  · obtain ⟨n, hn, rfl⟩ := List.mem_map.mp hx
    exact .inl ⟨n, List.mem_range.mp hn, rfl⟩
  · split at hx
    next => simp at hx
    next hrest =>
      split at hx
      next hfull => exact .inr ⟨hrest, .inl ⟨hfull, List.mem_singleton.mp hx⟩⟩
      next => exact .inr ⟨hrest, .inr (List.mem_singleton.mp hx)⟩

/-! ## Which calls can occur -/

mutual

/-- The calls that are written in a statement. -/
def Stmt.calls : Stmt → List Call
  | .comment _ => []
  | .declare _ => []
  | .call call => [call]
  | .batched _ body => callsOf body
  | .forEachTile body => callsOf body
  | .loop _ _ body => callsOf body
  | .blank => []

/-- The calls that are written in statements in a row. -/
def callsOf : List Stmt → List Call
  | [] => []
  | stmt :: rest => stmt.calls ++ callsOf rest

end

attribute [simp] Stmt.calls callsOf

@[simp] theorem callsOf_append (xs ys : List Stmt) :
    callsOf (xs ++ ys) = callsOf xs ++ callsOf ys := by
  induction xs with
  | nil => rfl
  | cons x xs ih => simp [ih]

@[simp] theorem callsOf_flatMap {α : Type} (f : α → List Stmt) (xs : List α) :
    callsOf (xs.flatMap f) = xs.flatMap fun x => callsOf (f x) := by
  induction xs with
  | nil => rfl
  | cons x xs ih => simp [ih]

mutual

theorem Stmt.call_mem_of_mem_unroll {scope : TileScope} {turn : Turn} {e : Event} :
    ∀ stmt : Stmt, e ∈ stmt.unroll scope turn → e.call ∈ stmt.calls
  | .comment _, h => by simp at h
  | .declare _, h => by simp at h
  | .call _, h => by
    simp only [Stmt.unroll, List.mem_singleton] at h
    simp [h]
  | .batched _ body, h => by
    simp only [Stmt.unroll, List.mem_flatMap] at h
    obtain ⟨_, -, h⟩ := h
    exact call_mem_of_mem_unrollAll body h
  | .forEachTile body, h => by
    simp only [Stmt.unroll, List.mem_flatMap] at h
    obtain ⟨_, -, h⟩ := h
    exact call_mem_of_mem_unrollAll body h
  | .loop _ _ body, h => by
    simp only [Stmt.unroll, List.mem_flatMap] at h
    obtain ⟨_, -, h⟩ := h
    exact call_mem_of_mem_unrollAll body h
  | .blank, h => by simp at h

/-- A thread makes only calls that are written in its statements. -/
theorem call_mem_of_mem_unrollAll {scope : TileScope} {turn : Turn} {e : Event} :
    ∀ body : List Stmt, e ∈ unrollAll scope turn body → e.call ∈ callsOf body
  | [], h => by simp at h
  | stmt :: rest, h => by
    simp only [unrollAll, List.mem_append] at h
    simp only [callsOf, List.mem_append]
    rcases h with h | h
    · exact .inl (Stmt.call_mem_of_mem_unroll stmt h)
    · exact .inr (call_mem_of_mem_unrollAll rest h)

end

end TileFusion
