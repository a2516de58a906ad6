import TileFusion.Proofs.TileOrder
import TileFusion.Proofs.UniformBatches

/-!
# What a fused stage finds in the accumulator

An elementwise stage behind the first takes one operand out of the accumulator, tile by tile, and
knows a tile by its place in the batch alone. Every stage goes through all of its batches before the
next one starts. So what a stage finds at a place is what was written there last, and that is the
tile it wants exactly as long as no place is written twice:

> `reused_found_iff`: a fused elementwise stage finds all tiles of the operand that it reuses if and
> only if the output fits in one batch.

With more tiles than that the first tile of the second batch finds a result of its own stage
(`reused_lost_fused`).
-/

namespace TileFusion

/-- A tile that the arithmetic unit computes, and the place of the accumulator that it writes. -/
structure Computation where
  /-- Number of the stage. -/
  stage : Nat
  /-- Place in the output. -/
  tile : Nat
  /-- Place in the batch. -/
  place : Nat
  deriving DecidableEq, Repr

/-- The computation of a stage in a turn of its loops. -/
def Computation.ofTurn (stage : Nat) (turn : Turn) : Computation :=
  ⟨stage, turn "tile_idx", turn "i"⟩

/-- What a stage computes, call by call. -/
def StageView.computations (v : StageView) : List Computation :=
  (turnsOf .compute v.mathEvents).map (.ofTurn v.index)

/-- What a pipeline computes, call by call. -/
def Pipeline.computations (p : Pipeline) : List Computation :=
  p.views.flatMap (·.computations)

/-- These are the calls of the arithmetic unit in the math thread. -/
theorem Pipeline.coords_computations (p : Pipeline) :
    p.computations.map (fun c => (c.tile, c.place)) =
      (turnsOf .compute (p.lower.thread .math).events).map Turn.coords := by
  rw [events_thread, turnsOf_flatMap, List.map_flatMap, computations, List.map_flatMap]
  refine List.flatMap_congr fun v _ => ?_
  rw [StageView.computations, List.map_map]
  rfl

/-- What the accumulator holds at a place: the last computation that wrote it. -/
def held (done : List Computation) (place : Nat) : Option Computation :=
  (done.filter (·.place = place)).getLast?

/-- Whenever the stage `s` computes a tile, the accumulator holds the same tile of the stage in
front, at the place where the stage will write. -/
def Pipeline.FindsReused (p : Pipeline) (s : Nat) : Prop :=
  ∀ done c rest, p.computations = done ++ c :: rest → c.stage = s →
    ∃ w, held done c.place = some w ∧ w.stage + 1 = s ∧ w.tile = c.tile

/-! ## The accumulator -/

theorem held_append_of_unwritten {ys : List Computation} {place : Nat}
    (h : ∀ c ∈ ys, c.place ≠ place) (xs : List Computation) :
    held (xs ++ ys) place = held xs place := by
  have hnil : ys.filter (·.place = place) = [] := by simpa using h
  rw [held, List.filter_append, hnil, List.append_nil, held]

/-- The last computations hide what was there before. -/
theorem exists_held_of_mem {c : Computation} {ys : List Computation} (h : c ∈ ys)
    (xs : List Computation) :
    ∃ w ∈ ys, w.place = c.place ∧ held (xs ++ ys) c.place = some w := by
  have hmem : c ∈ ys.filter (·.place = c.place) := by simpa using h
  obtain ⟨w, hw⟩ := Option.isSome_iff_exists.mp
    (List.getLast?_isSome.mpr (List.ne_nil_of_mem hmem))
  obtain ⟨hwy, hplace⟩ := List.mem_filter.mp (List.mem_of_getLast? hw)
  refine ⟨w, hwy, by simpa using hplace, ?_⟩
  rw [held, List.filter_append, List.getLast?_append, hw, Option.some_or]

/-- An entry that is in neither of the outer parts of a list stands in the middle one. -/
theorem exists_middle_of_append {α : Type} {pre mid post done rest : List α} {c : α}
    (h : pre ++ (mid ++ post) = done ++ c :: rest) (hpre : c ∉ pre) (hpost : c ∉ post) :
    ∃ front back, mid = front ++ c :: back ∧ done = pre ++ front := by
  obtain ⟨front, rfl, hrest⟩ : ∃ front, done = pre ++ front ∧ mid ++ post = front ++ c :: rest := by
    obtain ⟨front, hdone, hrest⟩ | ⟨more, hmore, hrest⟩ := List.append_eq_append_iff.mp h
    · exact ⟨front, hdone, hrest⟩
    · cases more with
      | nil => exact ⟨[], by simpa using hmore.symm, by simpa using hrest.symm⟩
      | cons x more =>
        obtain ⟨rfl, -⟩ := List.cons.inj hrest
        simp [hmore] at hpre
  obtain ⟨more, -, hmore⟩ | ⟨back, hmid, hback⟩ := List.append_eq_append_iff.mp hrest
  · simp [hmore] at hpost
  · cases back with
    | nil => simp [← show c :: rest = post by simpa using hback] at hpost
    | cons x back =>
      obtain ⟨rfl, -⟩ := List.cons.inj hback
      exact ⟨front, back, hmid, rfl⟩

/-! ## The computations of a stage -/

namespace StageView

variable {v w : StageView}

/-- The computation of a tile. -/
def computation (v : StageView) (tile : Nat) : Computation :=
  ⟨v.index, tile, tile % v.batches.batchSize⟩

/-- A stage computes its tiles in order. -/
theorem computations_eq (v : StageView) :
    v.computations = (List.range v.output.tiles).flatMap fun n =>
      List.replicate v.tileSteps (v.computation n) := by
  have hcoords : v.computations = ((turnsOf .compute v.mathEvents).map Turn.coords).map
      fun x => ⟨v.index, x.1, x.2⟩ := by
    rw [List.map_map]
    rfl
  rw [hcoords, turnsOf_compute, coords_work, List.map_flatMap]
  simp only [List.map_replicate]
  rfl

/-- Outside of matrix products, one call computes a tile. -/
theorem computations_eq_map (hone : v.tileSteps = 1) :
    v.computations = (List.range v.output.tiles).map v.computation := by
  rw [computations_eq, hone, List.map_eq_flatMap]
  rfl

theorem mem_computations (hsteps : 0 < v.tileSteps) {c : Computation} :
    c ∈ v.computations ↔ ∃ n < v.output.tiles, c = v.computation n := by
  rw [computations_eq, List.mem_flatMap]
  simp only [List.mem_range, List.mem_replicate]
  constructor
  · rintro ⟨n, hn, -, rfl⟩
    exact ⟨n, hn, rfl⟩
  · rintro ⟨n, hn, rfl⟩
    exact ⟨n, hn, by omega, rfl⟩

theorem stage_of_mem_computations {c : Computation} (h : c ∈ v.computations) :
    c.stage = v.index := by
  obtain ⟨turn, -, rfl⟩ := List.mem_map.mp h
  rfl

/-- Every tile takes a step: a matrix product has an inner dimension. -/
theorem Measured.tileSteps_pos (hm : v.Measured) : 0 < v.tileSteps := by
  unfold tileSteps
  cases ha : v.stage.spec.arithmetic with
  | matmul =>
    obtain ⟨-, -, hinner⟩ := hm.product ha
    obtain ⟨hcols, hpos⟩ := hm.wholeA.tileCols_eq
    rw [hinner, hcols]
    exact hpos
  | _ => exact Nat.one_pos

end StageView

/-! ## In a pipeline -/

section Built

variable {r : Registry} {specs : List StageSpec} {settings : Settings} {p : Pipeline}

/-- Batches are as large as asked for, unless there are fewer tiles. -/
theorem batchSize_of_build (hr : r.Declared)
    (hp : (Pipeline.build r specs settings).value = .ok p) {v : StageView} (hv : v ∈ p.views)
    (hpos : 0 < v.output.tiles) :
    v.batches.batchSize = min settings.batchSize v.output.tiles := by
  have hone := batchSize_pos_of_build hp
  obtain ⟨hbatch, -⟩ := batch_of_build hr hp v hv
  show max v.stage.batchSize 1 = min settings.batchSize v.output.tiles
  omega

theorem Pipeline.Ordered.pairwise_index (h : p.Ordered) :
    p.views.Pairwise (·.index < ·.index) := by
  have hindex : (p.views.map (·.index)).Pairwise (· < ·) := by
    rw [h.index]
    exact List.pairwise_lt_range'
  exact List.pairwise_map.mp hindex

section Neighbours

variable {front back : List StageView} {v w : StageView}

/-- What stands in front of the tile `n` of a stage: all tiles of the stages before, and the tiles
below `n`. -/
def computedBefore (front : List StageView) (w v : StageView) (n : Nat) : List Computation :=
  front.flatMap (·.computations) ++ w.computations ++ (List.range n).map v.computation

theorem Pipeline.computations_eq_of_lt (hsplit : p.views = front ++ w :: v :: back)
    (hone : v.tileSteps = 1) {n : Nat} (hn : n < v.output.tiles) :
    ∃ rest, p.computations = computedBefore front w v n ++ v.computation n :: rest := by
  refine ⟨(List.range' (n + 1) (v.output.tiles - n - 1)).map v.computation ++
    back.flatMap (·.computations), ?_⟩
  rw [computations, hsplit, List.flatMap_append, List.flatMap_cons, List.flatMap_cons,
    StageView.computations_eq_map hone, range_eq_append_cons hn]
  simp only [computedBefore, List.map_append, List.map_cons, List.append_assoc, List.cons_append]

/-- Whenever the stage computes, it computes a tile, and what was computed before is known. -/
theorem Pipeline.Ordered.exists_tile (h : p.Ordered) (hsplit : p.views = front ++ w :: v :: back)
    (hone : v.tileSteps = 1) {done rest : List Computation} {c : Computation}
    (hc : p.computations = done ++ c :: rest) (hstage : c.stage = v.index) :
    ∃ n < v.output.tiles, c = v.computation n ∧ done = computedBefore front w v n := by
  have hpair := h.pairwise_index
  rw [hsplit, ← List.singleton_append, ← List.append_assoc] at hpair
  obtain ⟨-, hback, hfront⟩ := List.pairwise_append.mp hpair
  obtain ⟨hbehind, -⟩ := List.pairwise_cons.mp hback
  have hpre : c ∉ front.flatMap (·.computations) ++ w.computations := by
    intro hmem
    obtain ⟨u, hu, hcu⟩ : ∃ u ∈ front ++ [w], c ∈ u.computations := by
      simpa [or_and_right, exists_or] using hmem
    have hlt := hfront u hu v (List.mem_cons_self ..)
    rw [← StageView.stage_of_mem_computations hcu] at hlt
    omega
  have hpost : c ∉ back.flatMap (·.computations) := by
    intro hmem
    obtain ⟨u, hu, hcu⟩ := List.mem_flatMap.mp hmem
    have hlt := hbehind u hu
    rw [← StageView.stage_of_mem_computations hcu] at hlt
    omega
  have hparts : p.computations = front.flatMap (·.computations) ++ w.computations ++
      (v.computations ++ back.flatMap (·.computations)) := by
    simp [computations, hsplit]
  obtain ⟨before, behind, hmid, rfl⟩ :=
    exists_middle_of_append (hparts.symm.trans hc) hpre hpost
  rw [StageView.computations_eq_map hone, List.map_eq_append_iff] at hmid
  obtain ⟨below, above, hrange, rfl, habove⟩ := hmid
  obtain ⟨n, above, rfl, rfl, -⟩ := List.map_eq_cons_iff.mp habove
  rw [List.range_eq_range', List.range'_eq_append_iff] at hrange
  obtain ⟨k, -, rfl, hcons⟩ := hrange
  obtain ⟨hn, hpos, -⟩ := List.range'_eq_cons_iff.mp hcons.symm
  obtain rfl : k = n := by omega
  refine ⟨k, by omega, rfl, ?_⟩
  rw [computedBefore, List.range_eq_range', List.append_assoc]

/-- In one batch no place is written twice, and the stage finds what it looks for. -/
theorem Pipeline.Ordered.findsReused_of_le (h : p.Ordered)
    (hsplit : p.views = front ++ w :: v :: back) (hfollows : w.Follows v) (hone : v.tileSteps = 1)
    (hsteps : 0 < w.tileSteps) (hv : v.output.tiles ≤ v.batches.batchSize)
    (hw : v.output.tiles ≤ w.batches.batchSize) : p.FindsReused v.index := by
  intro done c rest hc hstage
  obtain ⟨n, hn, rfl, rfl⟩ := h.exists_tile hsplit hone hc hstage
  have hplace : n % w.batches.batchSize = n % v.batches.batchSize := by
    rw [Nat.mod_eq_of_lt (by omega), Nat.mod_eq_of_lt (by omega)]
  -- the stage itself has not been here
  have hfresh : ∀ d ∈ (List.range n).map v.computation, d.place ≠ (v.computation n).place := by
    intro d hd
    obtain ⟨m, hm, rfl⟩ := List.mem_map.mp hd
    have hlt := List.mem_range.mp hm
    show m % v.batches.batchSize ≠ n % v.batches.batchSize
    rw [Nat.mod_eq_of_lt (by omega), Nat.mod_eq_of_lt (by omega)]
    omega
  -- and the stage in front has, with this tile and no other
  have hmem : w.computation n ∈ w.computations :=
    (StageView.mem_computations hsteps).mpr ⟨n, hfollows.tiles ▸ hn, rfl⟩
  obtain ⟨d, hd, hdplace, hheld⟩ := exists_held_of_mem hmem (front.flatMap (·.computations))
  obtain ⟨m, hm, rfl⟩ := (StageView.mem_computations hsteps).mp hd
  have hmn : m % w.batches.batchSize = n % w.batches.batchSize := hdplace
  rw [← hfollows.tiles] at hm
  rw [Nat.mod_eq_of_lt (by omega), Nat.mod_eq_of_lt (by omega)] at hmn
  refine ⟨w.computation m, ?_, hfollows.index.symm, hmn⟩
  rw [computedBefore, held_append_of_unwritten hfresh, ← hheld]
  exact congrArg _ hplace.symm

/-- The second batch of a stage finds what the first one has left. -/
theorem Pipeline.not_findsReused_of_lt
    (hsplit : p.views = front ++ w :: v :: back) (hone : v.tileSteps = 1)
    (hpos : 0 < v.batches.batchSize) (hlt : v.batches.batchSize < v.output.tiles) :
    ¬p.FindsReused v.index := by
  intro hfinds
  obtain ⟨rest, hrest⟩ := Pipeline.computations_eq_of_lt hsplit hone hlt
  obtain ⟨d, hd, hstage, -⟩ := hfinds _ _ rest hrest rfl
  have hzero : v.computation 0 ∈ (List.range v.batches.batchSize).map v.computation :=
    List.mem_map_of_mem (List.mem_range.mpr hpos)
  obtain ⟨e, he, -, hheld⟩ := exists_held_of_mem hzero
    (front.flatMap (·.computations) ++ w.computations)
  have hplace : (v.computation v.batches.batchSize).place = (v.computation 0).place := by
    show v.batches.batchSize % v.batches.batchSize = 0 % v.batches.batchSize
    rw [Nat.mod_self, Nat.zero_mod]
  rw [hplace, computedBefore, hheld] at hd
  obtain rfl := Option.some.inj hd
  obtain ⟨m, -, rfl⟩ := List.mem_map.mp he
  -- the last writer belongs to the stage itself
  have hself : (v.computation m).stage = v.index := rfl
  omega

end Neighbours

/-- What is known of an elementwise stage behind the first one, and of the stage in front. -/
theorem exists_fused (hr : r.Declared) (hp : (Pipeline.build r specs settings).value = .ok p)
    {v : StageView} (hv : v ∈ p.views) (hindex : 0 < v.index) {op : EltwiseOp}
    (hop : v.stage.spec.arithmetic = .eltwise op) :
    ∃ front w back, p.views = front ++ w :: v :: back ∧ w.Follows v ∧ v.tileSteps = 1 ∧
      0 < w.tileSteps ∧ v.batches.batchSize = min settings.batchSize v.output.tiles ∧
      w.batches.batchSize = min settings.batchSize v.output.tiles := by
  have hmeasured := measured_of_build hr hp
  obtain ⟨front, w, back, hsplit, hfollows⟩ :=
    (ordered_of_build hp).exists_previous (isChain_views hr hp) hv hindex
  have hw : w ∈ p.views := by simp [hsplit]
  have hm := hmeasured v hv
  have hpos : 0 < v.output.tiles := by
    refine hm.countedOutput.tiles_pos ?_
    rw [← hm.copied (by simp [hop])]
    exact hm.wholeA
  refine ⟨front, w, back, hsplit, hfollows, by simp [StageView.tileSteps, hop],
    (hmeasured w hw).tileSteps_pos, batchSize_of_build hr hp hv hpos, ?_⟩
  rw [hfollows.tiles] at hpos ⊢
  exact batchSize_of_build hr hp hw hpos

theorem not_findsReused_of_build (hr : r.Declared)
    (hp : (Pipeline.build r specs settings).value = .ok p) {v : StageView} (hv : v ∈ p.views)
    (hindex : 0 < v.index) {op : EltwiseOp} (hop : v.stage.spec.arithmetic = .eltwise op)
    (hlt : settings.batchSize < v.output.tiles) : ¬p.FindsReused v.index := by
  obtain ⟨front, w, back, hsplit, -, hone, -, hsize, -⟩ := exists_fused hr hp hv hindex hop
  have hbatch : 0 < v.batches.batchSize := Nat.lt_of_lt_of_le Nat.one_pos (Nat.le_max_right ..)
  exact Pipeline.not_findsReused_of_lt hsplit hone hbatch (by omega)

/-- **A fused elementwise stage names the output of the stage in front, and finds it in the
accumulator if and only if all of its tiles make one batch.** -/
theorem reused_found_iff (hr : r.Declared) (hp : (Pipeline.build r specs settings).value = .ok p)
    {v : StageView} (hv : v ∈ p.views) (hindex : 0 < v.index) {op : EltwiseOp}
    (hop : v.stage.spec.arithmetic = .eltwise op) :
    p.computations.map (fun c => (c.tile, c.place)) =
        (turnsOf .compute (p.lower.thread .math).events).map Turn.coords ∧
      (∃ w ∈ p.views, w.index + 1 = v.index ∧ v.loader.reused = some w.stage.spec.output) ∧
      (p.FindsReused v.index ↔ v.output.tiles ≤ settings.batchSize) := by
  obtain ⟨front, w, back, hsplit, hfollows, hone, hsteps, hsize, hsize'⟩ :=
    exists_fused hr hp hv hindex hop
  refine ⟨p.coords_computations, ⟨w, by simp [hsplit], hfollows.index.symm, hfollows.reused⟩, ?_⟩
  constructor
  · intro hfinds
    by_contra hle
    exact not_findsReused_of_build hr hp hv hindex hop (by omega) hfinds
  · intro hle
    exact (ordered_of_build hp).findsReused_of_le hsplit hfollows hone hsteps (by omega) (by omega)

end Built

/-! ## Four tiles -/

theorem declared_fourTiles :
    (columnRegistry ⟨⟨64, 64⟩, .float16b, 4, 8192⟩).Declared :=
  .input "b" ⟨64, 64⟩ .float16b none declared_columnInput rfl

/-- A batch of four tiles takes the whole output, and the product finds the sum. -/
theorem reused_found_iff_four :
    ∃ p, (Pipeline.build (columnRegistry ⟨⟨64, 64⟩, .float16b, 4, 8192⟩) fusedSpecs
      { fusedSettings with batchSize := 4 }).value = .ok p ∧ p.FindsReused 1 := by
  obtain ⟨p, hp, hviews⟩ := exists_build_of_any (columnRegistry ⟨⟨64, 64⟩, .float16b, 4, 8192⟩)
    fusedSpecs { fusedSettings with batchSize := 4 }
    (fun p => p.views.any fun v => v.index == 1 && v.stage.spec.arithmetic == .eltwise .mul &&
      v.output.tiles ≤ 4) (by decide +kernel)
  obtain ⟨v, hv, hcheck⟩ := List.any_eq_true.mp hviews
  simp only [Bool.and_eq_true, beq_iff_eq, decide_eq_true_eq] at hcheck
  obtain ⟨⟨hindex, hop⟩, hle⟩ := hcheck
  have hfinds := (reused_found_iff declared_fourTiles hp hv (by omega) hop).2.2.mpr hle
  rw [hindex] at hfinds
  exact ⟨p, hp, hfinds⟩

/-- In batches of three the same stages are built, and the product takes its own first tile for the
last tile of the sum. -/
theorem reused_lost_fused :
    ∃ p, (columnRegistry ⟨⟨64, 64⟩, .float16b, 4, 8192⟩).Declared ∧
      (Pipeline.build (columnRegistry ⟨⟨64, 64⟩, .float16b, 4, 8192⟩) fusedSpecs
        fusedSettings).value = .ok p ∧
      ∃ v ∈ p.views, 0 < v.index ∧ v.stage.spec.arithmetic = .eltwise .mul ∧
        ¬p.FindsReused v.index := by
  obtain ⟨p, hp, hviews⟩ := exists_build_of_any (columnRegistry ⟨⟨64, 64⟩, .float16b, 4, 8192⟩)
    fusedSpecs fusedSettings
    (fun p => p.views.any fun v => v.index == 1 && v.stage.spec.arithmetic == .eltwise .mul &&
      3 < v.output.tiles) (by decide +kernel)
  obtain ⟨v, hv, hcheck⟩ := List.any_eq_true.mp hviews
  simp only [Bool.and_eq_true, beq_iff_eq, decide_eq_true_eq] at hcheck
  obtain ⟨⟨hindex, hop⟩, hlt⟩ := hcheck
  have hpos : 0 < v.index := by omega
  exact ⟨p, declared_fourTiles, hp, v, hv, hpos, hop,
    not_findsReused_of_build declared_fourTiles hp hv hpos hop hlt⟩

end TileFusion
