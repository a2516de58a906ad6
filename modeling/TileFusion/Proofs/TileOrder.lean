import TileFusion.Proofs.StageHandoff
import TileFusion.Proofs.TileBounds

/-!
# Tiles and their places in a batch

The loops of a stage go through the tiles of its output in batches. The math thread knows a tile by
its place in the batch alone, the other two know it by its place in the output. Both come from one
turn of the same loops, and this file puts them side by side:

> `coords_work`: a stage works on the tiles 0, 1, 2, … in this order, each in as many calls as the
> arithmetic unit needs, and tile `n` has the place `n % size` in its batch.

So a place determines the tile only while all tiles fit in one batch.
-/

namespace TileFusion

/-- The numbers below a bound, around one of them. -/
theorem range_eq_append_cons {n bound : Nat} (h : n < bound) :
    List.range bound = List.range n ++ n :: List.range' (n + 1) (bound - n - 1) := by
  rw [List.range_eq_range', List.range_eq_range', List.range'_eq_append_iff]
  refine ⟨n, by omega, rfl, ?_⟩
  rw [show bound - n = bound - n - 1 + 1 by omega, List.range'_succ]
  simp

/-- The place of a tile in its batch is what is left of its number. -/
theorem coords_turns_mod {shape : BatchShape} (h : shape.remainder < shape.batchSize)
    (turn : Turn) :
    ((shape.turns turn).flatMap fun x => (x.1.turns x.2).map Turn.coords) =
      (List.range (shape.offset + shape.remainder)).map fun n => (n, n % shape.batchSize) := by
  have hplace : ∀ x ∈ (shape.turns turn).flatMap fun x => (x.1.turns x.2).map Turn.coords,
      id x = (x.1, x.1 % shape.batchSize) := by
    intro x hx
    rw [coords_batches, List.mem_append, List.mem_flatMap] at hx
    obtain ⟨b, -, hx⟩ | hx := hx
    · obtain ⟨n, hn, rfl⟩ := List.mem_map.mp hx
      rw [Nat.mul_add_mod_of_lt (List.mem_range.mp hn), id]
    · obtain ⟨n, hn, rfl⟩ := List.mem_map.mp hx
      rw [BatchShape.offset, Nat.mul_add_mod_of_lt ((List.mem_range.mp hn).trans h), id]
  have hid := List.map_congr_left hplace
  rw [List.map_id] at hid
  rw [← fst_coords_batches shape turn, List.map_map]
  exact hid

namespace StageView

/-- How many calls bring a tile in, and how many compute it. -/
def tileSteps (v : StageView) : Nat :=
  match v.stage.spec.arithmetic with
  | .matmul => v.stage.innerTiles
  | _ => 1

theorem coords_innerTurns (v : StageView) (turn : Turn) :
    (v.innerTurns turn).map Turn.coords = List.replicate v.tileSteps turn.coords := by
  unfold innerTurns tileSteps
  cases v.stage.spec.arithmetic with
  | matmul =>
    rw [List.map_map, List.eq_replicate_iff]
    refine ⟨by simp, ?_⟩
    intro x hx
    obtain ⟨n, -, rfl⟩ := List.mem_map.mp hx
    simp [Turn.coords]
  | _ => rfl

/-- A stage goes through its tiles in order. -/
theorem coords_batchTurns (v : StageView) :
    ((v.batchTurns.flatMap fun x => x.1.turns x.2).map Turn.coords) =
      (List.range v.output.tiles).map fun n => (n, n % v.batches.batchSize) := by
  have hlt : v.batches.remainder < v.batches.batchSize := BatchShape.split_remainder_lt ..
  have htotal : v.batches.offset + v.batches.remainder = v.output.tiles :=
    BatchShape.split_total ..
  rw [List.map_flatMap, batchTurns, coords_turns_mod hlt, htotal]

/-- What the steps of a tile show, if that depends on the tile and its place only, is shown tile by
tile. -/
theorem map_work {β : Type} {f : Turn → β} {g : Nat × Nat → List β} (v : StageView)
    (h : ∀ turn, (v.innerTurns turn).map f = g turn.coords) :
    (v.batchTurns.flatMap v.workTurns).map f =
      (List.range v.output.tiles).flatMap fun n => g (n, n % v.batches.batchSize) := by
  have htiles : (v.batchTurns.flatMap v.workTurns).map f =
      ((v.batchTurns.flatMap fun x => x.1.turns x.2).map Turn.coords).flatMap g := by
    unfold workTurns
    rw [List.flatMap_map, ← List.flatMap_assoc, List.map_flatMap]
    congr 1
    funext turn
    exact h turn
  rw [htiles, coords_batchTurns, List.flatMap_map]

/-- A stage works on its tiles in order. -/
theorem coords_work (v : StageView) :
    (v.batchTurns.flatMap v.workTurns).map Turn.coords =
      (List.range v.output.tiles).flatMap fun n =>
        List.replicate v.tileSteps (n, n % v.batches.batchSize) :=
  v.map_work v.coords_innerTurns

/-- Every tile is worked on in its steps, and no other calls. -/
theorem countP_work (v : StageView) {n : Nat} (hn : n < v.output.tiles) :
    (v.batchTurns.flatMap v.workTurns).countP (fun turn => turn "tile_idx" = n) = v.tileSteps := by
  have hother : ∀ ms : List Nat, n ∉ ms →
      ((ms.flatMap fun m => List.replicate v.tileSteps (m, m % v.batches.batchSize)).countP
        fun x => x.1 = n) = 0 := by
    intro ms hms
    rw [List.countP_eq_zero]
    intro x hx hxn
    obtain ⟨m, hm, hx⟩ := List.mem_flatMap.mp hx
    rw [List.eq_of_mem_replicate hx] at hxn
    simp only [decide_eq_true_eq] at hxn
    exact hms (hxn ▸ hm)
  have hmap : (v.batchTurns.flatMap v.workTurns).countP (fun turn => turn "tile_idx" = n) =
      ((v.batchTurns.flatMap v.workTurns).map Turn.coords).countP fun x => x.1 = n := by
    rw [List.countP_map]
    rfl
  rw [hmap, coords_work, range_eq_append_cons hn, List.flatMap_append, List.flatMap_cons,
    List.countP_append, List.countP_append, hother _ (by simp), hother _ (by simp),
    List.countP_replicate]
  simp

end StageView

end TileFusion
