/-!
# Batches

The output tiles of a stage pass through the accumulator in batches: full ones first, and then one
with what is left. `split_total` says that no tile is lost and none is counted twice.
-/

namespace TileFusion

/-- How a number of tiles splits into batches. -/
structure BatchShape where
  /-- Tiles of a full batch. -/
  batchSize : Nat
  /-- Number of full batches. -/
  fullBatches : Nat
  /-- Tiles of the batch behind them; none when the tiles divide evenly. -/
  remainder : Nat
  deriving DecidableEq, Repr

namespace BatchShape

/-- Splits `tiles` tiles; a batch has at least one. -/
def split (tiles batchSize : Nat) : BatchShape :=
  let size := max batchSize 1
  ⟨size, tiles / size, tiles % size⟩

/-- Number of batches, the last one included. -/
def batches (s : BatchShape) : Nat :=
  s.fullBatches + if s.remainder > 0 then 1 else 0

/-- Tiles in front of the remainder. -/
def offset (s : BatchShape) : Nat :=
  s.fullBatches * s.batchSize

/-- The full batches and what is left make up the tiles that were split. -/
theorem split_total (tiles batchSize : Nat) :
    (split tiles batchSize).offset + (split tiles batchSize).remainder = tiles := by
  simp only [split, offset]
  exact Nat.div_add_mod' tiles (max batchSize 1)

/-- What is left does not fill a batch. -/
theorem split_remainder_lt (tiles batchSize : Nat) :
    (split tiles batchSize).remainder < (split tiles batchSize).batchSize :=
  Nat.mod_lt _ (Nat.lt_of_lt_of_le Nat.zero_lt_one (Nat.le_max_right _ _))

end BatchShape

end TileFusion
