import TileFusion.Proofs.WrittenLoops
import TileFusion.Proofs.AccumulatorPlaces
import Mathlib.Algebra.Order.Floor.Div

/-!
# Batches visit every tile

A batched statement is written as a loop over the full batches and a block for what is left, or
without a block when there is nothing in front of it. Each of the three has an expression of its own
for the place of a tile. Together they are meant to be one loop over all tiles:

> `batches_visit_tiles`: run in words, the code has as many batches as the quotient rounded up; each
> of them has a tile at least and not more than a batch takes, numbered from 0; and over all batches
> the places of the tiles are 0, 1, 2, … up to the number of tiles, without a sum or a product that
> leaves a word.

It holds whatever stands in the body of a batch and in that of a tile (`Visits`).
-/

namespace TileFusion

namespace BatchShape

variable {shape : BatchShape} {turn t : Turn} {x : TileScope × Turn}

/-! ## The batches of a shape -/

theorem length_turns (shape : BatchShape) (turn : Turn) :
    (shape.turns turn).length = shape.batches := by
  rw [turns, batches, List.length_append, List.length_map, List.length_range]
  congr 1
  by_cases hrest : shape.remainder = 0
  · simp [hrest]
  · rw [if_neg hrest, if_pos (Nat.pos_of_ne_zero hrest)]
    split <;> rfl

/-- There are as many batches as the quotient rounded up. -/
theorem batches_split (tiles batchSize : Nat) :
    (split tiles batchSize).batches = tiles ⌈/⌉ max batchSize 1 := by
  have hpos : 0 < max batchSize 1 := Nat.lt_of_lt_of_le Nat.zero_lt_one (Nat.le_max_right ..)
  show tiles / max batchSize 1 + (if tiles % max batchSize 1 > 0 then 1 else 0) = _
  generalize max batchSize 1 = size at hpos ⊢
  have hrest := Nat.mod_lt tiles hpos
  have htotal : tiles + size - 1 = size * (tiles / size) + (tiles % size + size - 1) := by
    have := Nat.div_add_mod tiles size
    omega
  rw [Nat.ceilDiv_eq_add_pred_div, htotal, Nat.mul_add_div hpos]
  congr 1
  split
  next h => exact (Nat.div_eq_of_lt_le (by omega) (by omega)).symm
  next h => exact (Nat.div_eq_of_lt (by omega)).symm

/-- No batch is empty, and none has more tiles than a full one. -/
theorem count_of_mem (hpos : 0 < shape.batchSize) (hrest : shape.remainder < shape.batchSize)
    (hx : x ∈ shape.turns turn) : 1 ≤ x.1.count ∧ x.1.count ≤ shape.batchSize := by
  obtain ⟨n, -, rfl⟩ | ⟨hne, ⟨-, rfl⟩ | rfl⟩ := turns_cases hx
  · exact ⟨hpos, Nat.le_refl _⟩
  · exact ⟨Nat.pos_of_ne_zero hne, Nat.le_of_lt hrest⟩
  · exact ⟨Nat.pos_of_ne_zero hne, Nat.le_of_lt hrest⟩

/-- At a tile, the place is that of the loop over tiles, and the loop around it is not touched. -/
theorem of_mem_tiles {scope : TileScope} (ht : t ∈ scope.turns turn) :
    t "i" < scope.count ∧ ∀ name, name ≠ "tile_idx" → name ≠ "i" → t name = turn name := by
  refine ⟨TileScope.place_lt_of_mem ht, fun name htile hplace => ?_⟩
  obtain ⟨i, -, rfl⟩ := List.mem_map.mp ht
  rw [Turn.set_of_ne _ htile, Turn.set_of_ne _ hplace]

/-- As long as the tiles are counted in a word, so is every part of the expression for a place. -/
theorem exact_index (htiles : shape.offset + shape.remainder < wordLimit)
    (hsize : shape.batchSize < wordLimit) (hx : x ∈ shape.turns turn) (ht : t ∈ x.1.turns x.2) :
    x.1.index.Exact t := by
  obtain ⟨hplace, houter⟩ := of_mem_tiles ht
  obtain ⟨n, hn, rfl⟩ | ⟨-, ⟨-, rfl⟩ | rfl⟩ := turns_cases hx
  · have hplace : t "i" < shape.batchSize := hplace
    have hbatch : t "batch" = n :=
      (houter "batch" (by decide) (by decide)).trans (turn.set_self "batch" n)
    have hnext : n * shape.batchSize + t "i" < shape.offset := by
      calc n * shape.batchSize + t "i"
          < n * shape.batchSize + shape.batchSize := by omega
        _ = (n + 1) * shape.batchSize := (Nat.succ_mul ..).symm
        _ ≤ shape.fullBatches * shape.batchSize := Nat.mul_le_mul_right _ hn
    have hle : n ≤ n * shape.batchSize := Nat.le_mul_of_pos_right n (Nat.zero_lt_of_lt hplace)
    show (t "batch" < wordLimit ∧ shape.batchSize < wordLimit ∧
      t "batch" * shape.batchSize < wordLimit) ∧ t "i" < wordLimit ∧
        t "batch" * shape.batchSize + t "i" < wordLimit
    rw [hbatch]
    omega
  · have hplace : t "i" < shape.remainder := hplace
    show t "i" < wordLimit
    omega
  · have hplace : t "i" < shape.remainder := hplace
    have hoffset : t "batch_offset" = shape.offset :=
      (houter "batch_offset" (by decide) (by decide)).trans
        (turn.set_self "batch_offset" shape.offset)
    show t "batch_offset" < wordLimit ∧ t "i" < wordLimit ∧ t "batch_offset" + t "i" < wordLimit
    rw [hoffset]
    omega

end BatchShape

/-! ## Runs of the bodies -/

/-- A batch as it is run. -/
structure BatchRun where
  /-- Its tiles, as they are written. -/
  scope : TileScope
  /-- The variables when it starts. -/
  vars : Variables
  /-- The variables at each of its tiles. -/
  tiles : List Variables

/-- The code of a batched statement runs the body of a batch once for each of `batches`, and a loop
over tiles in there runs its body once for each tile of the batch, whatever the bodies are. -/
structure BatchShape.Visits (shape : BatchShape) (thread : Thread) (start : Variables)
    (batches : List BatchRun) : Prop where
  batch : ∀ (scope : TileScope) (body : List Stmt),
    runAll start (codeOf thread scope [.batched shape body]) =
      batches.flatMap fun b => runAll b.vars (codeOf thread b.scope body)
  tile : ∀ b ∈ batches, ∀ body : List Stmt,
    runAll b.vars (codeOf thread b.scope [.forEachTile body]) =
      b.tiles.flatMap fun vars => runAll vars (codeOf thread b.scope body)

/-- A batch of one to `size` tiles, numbered from 0. No part of the expression for their places in
the output leaves a word. -/
structure BatchRun.Proper (size : Nat) (b : BatchRun) : Prop where
  pos : 1 ≤ b.tiles.length
  le : b.tiles.length ≤ size
  places : b.tiles.map (fun vars => (vars "i").toNat) = List.range b.tiles.length
  exact : ∀ vars ∈ b.tiles, b.scope.index.Exact vars.turn

/-- The batches of a shape, as they are run from a turn on. -/
def BatchShape.runs (shape : BatchShape) (thread : Thread) (turn : Turn) : List BatchRun :=
  (shape.turns turn).map fun x =>
    ⟨x.1, x.2.variables thread, (x.1.turns x.2).map (·.variables thread)⟩

namespace BatchShape

section Runs

variable {shape : BatchShape} {thread : Thread} {turn : Turn}

theorem visits_runs (hfull : shape.fullBatches < wordLimit) (hsize : shape.batchSize < wordLimit)
    (hrest : shape.remainder < wordLimit) :
    shape.Visits thread (turn.variables thread) (shape.runs thread turn) := by
  refine ⟨fun scope body => ?_, fun b hb body => ?_⟩
  · rw [codeOf_singleton, run_batched hfull, runs, List.flatMap_map]
  · obtain ⟨x, hx, rfl⟩ := List.mem_map.mp hb
    have hscope := inWords_of_mem hsize hrest hx
    rw [codeOf_singleton, run_forEachTile hscope.count hscope.plain, List.flatMap_map]

/-- In a batch the places go up from 0. -/
theorem places_turns {scope : TileScope} (hcount : scope.count < wordLimit) :
    (scope.turns turn).map (fun t => (t.variables thread "i").toNat) = List.range scope.count := by
  have hplace : ∀ t ∈ scope.turns turn, (t.variables thread "i").toNat = t "i" := fun t ht =>
    Turn.toNat_variables (by simp) ((TileScope.place_lt_of_mem ht).trans hcount)
  rw [List.map_congr_left hplace, TileScope.turns, List.map_map]
  refine (List.map_congr_left fun n _ => ?_).trans (List.map_id _)
  show ((turn.set "i" n).set "tile_idx" _) "i" = n
  rw [Turn.set_of_ne _ (by decide), Turn.set_self]

theorem proper_of_mem (htiles : shape.offset + shape.remainder < wordLimit)
    (hsize : shape.batchSize < wordLimit) (hrest : shape.remainder < shape.batchSize)
    {b : BatchRun} (hb : b ∈ shape.runs thread turn) : b.Proper shape.batchSize := by
  obtain ⟨x, hx, rfl⟩ := List.mem_map.mp hb
  obtain ⟨hpos, hle⟩ := count_of_mem (Nat.zero_lt_of_lt hrest) hrest hx
  have hlength : ((x.1.turns x.2).map (·.variables thread)).length = x.1.count := by
    simp [TileScope.turns]
  refine ⟨hlength.symm ▸ hpos, hlength.symm ▸ hle, ?_, ?_⟩
  · rw [hlength, List.map_map]
    exact places_turns (Nat.lt_of_le_of_lt hle hsize)
  · intro vars hvars
    obtain ⟨t, ht, rfl⟩ := List.mem_map.mp hvars
    have hplain := (inWords_of_mem hsize (hrest.trans hsize) hx).plain
    exact ((exact_index htiles hsize hx ht).variables fun _ => hplain).1

/-- Every thread goes through as many tiles as there are. -/
theorem length_tiles_runs :
    ((shape.runs thread turn).flatMap (·.tiles)).length = shape.offset + shape.remainder := by
  have hlength := congrArg List.length (tiles_turns shape turn)
  rw [List.length_range] at hlength
  rw [← hlength, runs, List.flatMap_map]
  simp only [List.length_flatMap, List.length_map]

/-- Over all batches the places in the output go up from 0. -/
theorem tiles_runs (hmath : thread ≠ .math) (htiles : shape.offset + shape.remainder < wordLimit) :
    ((shape.runs thread turn).flatMap (·.tiles)).map (fun vars => (vars "tile_idx").toNat) =
      List.range (shape.offset + shape.remainder) := by
  rw [← tiles_turns shape turn, runs, List.flatMap_map, List.map_flatMap]
  refine List.flatMap_congr fun x hx => ?_
  rw [List.map_map]
  refine List.map_congr_left fun t ht => ?_
  exact Turn.toNat_variables (fun hm => hmath hm.1) ((tile_lt_of_mem hx ht).trans htiles)

end Runs

end BatchShape

/-- **Batches visit every tile once, in order.** The code that is written for a batched statement
runs the body of a batch as often as the quotient rounded up says, so not at all if there are no
tiles. Each time it has a tile at least and no more than a batch takes, and numbers them from 0.
Over all batches it comes to as many tiles as there are: the threads that go by places in the output
find 0, 1, 2, … up to that number, and no part of an expression for a place leaves a word. -/
theorem batches_visit_tiles {tiles batchSize : Nat} (htiles : tiles < wordLimit)
    (hsize : batchSize < wordLimit) (thread : Thread) (turn : Turn) :
    (∀ platform depth scope body,
      linesOf platform thread depth scope [.batched (.split tiles batchSize) body] =
        codeLines platform depth (codeOf thread scope [.batched (.split tiles batchSize) body])) ∧
    ∃ batches : List BatchRun,
      (BatchShape.split tiles batchSize).Visits thread (turn.variables thread) batches ∧
      batches.length = (BatchShape.split tiles batchSize).batches ∧
      batches.length = tiles ⌈/⌉ max batchSize 1 ∧
      (tiles = 0 → batches = []) ∧
      (∀ b ∈ batches, b.Proper (max batchSize 1)) ∧
      (batches.flatMap (·.tiles)).length = tiles ∧
      (thread ≠ .math → (batches.flatMap (·.tiles)).map (fun vars => (vars "tile_idx").toNat) =
        List.range tiles) := by
  have hrest := BatchShape.split_remainder_lt tiles batchSize
  have htotal := BatchShape.split_total tiles batchSize
  have hceil := BatchShape.batches_split tiles batchSize
  have hword : max batchSize 1 < wordLimit := Nat.max_lt.mpr ⟨hsize, by decide⟩
  have hfull : tiles / max batchSize 1 < wordLimit := Nat.lt_of_le_of_lt (Nat.div_le_self ..) htiles
  have hlength : ((BatchShape.split tiles batchSize).runs thread turn).length =
      (BatchShape.split tiles batchSize).batches := by
    rw [BatchShape.runs, List.length_map, BatchShape.length_turns]
  rw [← htotal] at htiles
  refine ⟨fun _ _ _ _ => linesOf_eq .., (BatchShape.split tiles batchSize).runs thread turn,
    BatchShape.visits_runs hfull hword (hrest.trans hword), hlength, hlength.trans hceil, ?_,
    fun b hb => BatchShape.proper_of_mem htiles hword hrest hb,
    BatchShape.length_tiles_runs.trans htotal, fun hmath => ?_⟩
  · intro hzero
    rw [← List.length_eq_zero_iff, hlength, hceil, hzero, zero_ceilDiv]
  · rw [BatchShape.tiles_runs hmath htiles, htotal]

/-- As many tiles as a word can count, in batches of a quarter of all words: three are full, and the
last one lacks a tile. -/
theorem batches_visit_tiles_wide :
    4294967295 < wordLimit ∧ 1073741824 < wordLimit ∧
    ∃ batches : List BatchRun,
      (BatchShape.split 4294967295 1073741824).Visits .unpack (Turn.start.variables .unpack)
        batches ∧
      batches.length = 4 ∧
      (batches.flatMap (·.tiles)).map (fun vars => (vars "tile_idx").toNat) =
        List.range 4294967295 := by
  have htiles : 4294967295 < wordLimit := by decide
  have hsize : 1073741824 < wordLimit := by decide
  obtain ⟨-, batches, hvisits, hlength, -, -, -, -, hplaces⟩ :=
    batches_visit_tiles htiles hsize .unpack .start
  exact ⟨htiles, hsize, batches, hvisits, hlength.trans (by decide), hplaces (by decide)⟩

end TileFusion
