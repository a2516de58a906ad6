import TileFusion.Proofs.BuiltStages

/-!
# Which tiles a kernel touches

The index expressions of a call, at the turn of the loops in which it is made, are the places of the
tiles that it reads or writes. The loops run over the tiles of the output, while the buffers have
shapes of their own. This file compares the two:

> `accesses_within`: all accesses lie in their buffers, with one exception, the second operand of a
> copy that spreads it; and that one does exactly when it has at least as many tiles as the output.

The exception is real: a copy may spread a second operand of any shape (`spread_copy_overruns`).
-/

namespace TileFusion

/-! ## Accesses -/

/-- The buffers of a stage. -/
inductive Slot where
  | first
  | second
  | result
  deriving DecidableEq, Repr

/-- The operand that a buffer of a stage is declared for. -/
def StageView.buffer (v : StageView) : Slot → Operand
  | .first => v.bufferA
  | .second => v.bufferB
  | .result => v.output

/-- The index expressions of a call, with the buffers that they go into. A tilizing load reads one
tile of a row of tiles, whose start it is given as well. -/
def Call.indices : Call → List (Slot × Index)
  | .unpackPair _ spread => [(.first, .tile), (.second, .second spread)]
  | .unpackSingle .. => [(.first, .tile)]
  | .unpackReduce .. => [(.first, .tile), (.second, .const 0)]
  | .unpackMatmul _ columns inner _ _ =>
    [(.first, .const 0), (.second, .const 0), (.first, .leftFactor columns inner),
      (.second, .rightFactor columns)]
  | .unpackTilize _ columns =>
    [(.first, .tilizedRow columns),
      (.first, .add (.tilizedRow columns) (.tilizedColumn columns))]
  | .pack .. => [(.result, .tile)]
  | _ => []

/-- The stage whose buffers a call touches. -/
def Call.stage? (call : Call) : Option Nat :=
  call.load?.or call.pack?

/-- A tile of a buffer of a stage. -/
structure Access where
  /-- Number of the stage. -/
  stage : Nat
  /-- The buffer. -/
  slot : Slot
  /-- Place in the buffer. -/
  tile : Nat
  deriving DecidableEq, Repr

/-- The tiles that a call touches when it is made. -/
def Event.accesses (e : Event) : List Access :=
  e.call.stage?.toList.flatMap fun s => e.call.indices.map fun x => ⟨s, x.1, x.2.eval e.turn⟩

/-- All tiles that the kernel of a pipeline touches lie in the operands that its buffers are
declared for. -/
def Pipeline.InBounds (p : Pipeline) : Prop :=
  ∀ t, ∀ e ∈ (p.lower.thread t).events, ∀ x ∈ e.accesses,
    ∃ v ∈ p.views, v.index = x.stage ∧ x.tile < (v.buffer x.slot).tiles

/-- A copy that spreads its second operand over the first, tile by tile. -/
def StageView.SpreadsCopy (v : StageView) : Prop :=
  v.stage.spec.arithmetic = .datacopy ∧
    ∃ spread, v.loader.kind = .broadcast spread ∧ spread ≠ .scalar

/-! ## The turns of the loops -/

@[simp] theorem Turn.set_self (turn : Turn) (name : String) (value : Nat) :
    turn.set name value name = value := by
  simp [Turn.set]

@[simp] theorem Turn.set_of_ne (turn : Turn) {name x : String} (h : x ≠ name) (value : Nat) :
    turn.set name value x = turn x := by
  simp [Turn.set, h]

/-- The tile that a turn works on, and its place in the batch. -/
def Turn.coords (turn : Turn) : Nat × Nat :=
  (turn "tile_idx", turn "i")

/-- In the turns of a batch, the place counts up and `tile_idx` is what the expression of its scope
says. -/
theorem coords_turns (scope : TileScope) (turn : Turn) :
    (scope.turns turn).map Turn.coords =
      (List.range scope.count).map fun n => (scope.index.eval (turn.set "i" n), n) := by
  simp [TileScope.turns, Turn.coords]

/-- **The walk of the batches**: the full ones one after the other, and then the tiles behind them,
which start at place 0 again. -/
theorem coords_batches (shape : BatchShape) (turn : Turn) :
    ((shape.turns turn).flatMap fun x => (x.1.turns x.2).map Turn.coords) =
      ((List.range shape.fullBatches).flatMap fun b =>
        (List.range shape.batchSize).map fun n => (b * shape.batchSize + n, n)) ++
      (List.range shape.remainder).map fun n => (shape.offset + n, n) := by
  have hfull : ((List.range shape.fullBatches).map fun n =>
      (TileScope.full shape, turn.set "batch" n)).flatMap
        (fun x => (x.1.turns x.2).map Turn.coords) =
      (List.range shape.fullBatches).flatMap fun b =>
        (List.range shape.batchSize).map fun n => (b * shape.batchSize + n, n) := by
    rw [List.flatMap_map]
    congr 1
    funext b
    rw [coords_turns]
    simp [TileScope.full, Index.eval, Index.batch, Index.place]
  unfold BatchShape.turns
  rw [List.flatMap_append, hfull]
  congr 1
  by_cases hr : shape.remainder = 0
  · simp [hr]
  · rw [if_neg hr]
    by_cases hf : shape.fullBatches = 0
    · have hoff : shape.offset = 0 := by rw [BatchShape.offset, hf, Nat.zero_mul]
      rw [if_pos hf, List.flatMap_singleton, coords_turns]
      simp [TileScope.only, Index.eval, Index.place, hoff]
    · rw [if_neg hf, List.flatMap_singleton, coords_turns]
      simp [TileScope.rest, Index.eval, Index.batchOffset, Index.place]

theorem range_mul (count size : Nat) :
    ((List.range count).flatMap fun b => (List.range size).map fun i => b * size + i) =
      List.range (count * size) := by
  induction count with
  | zero => simp
  | succ count ih =>
    rw [List.range_succ, List.flatMap_append, ih, Nat.succ_mul, List.range_add]
    simp

theorem fst_coords_batches (shape : BatchShape) (turn : Turn) :
    ((shape.turns turn).flatMap fun x => (x.1.turns x.2).map Turn.coords).map Prod.fst =
      List.range (shape.offset + shape.remainder) := by
  rw [coords_batches, List.map_append, List.map_flatMap, List.range_add, BatchShape.offset,
    ← range_mul]
  simp only [List.map_map, Function.comp_def]

/-- The turns of all batches go through the tiles in order. -/
theorem tiles_turns (shape : BatchShape) (turn : Turn) :
    ((shape.turns turn).flatMap fun x => (x.1.turns x.2).map (· "tile_idx")) =
      List.range (shape.offset + shape.remainder) := by
  rw [← fst_coords_batches shape turn, List.map_flatMap]
  simp only [List.map_map, Function.comp_def, Turn.coords]

theorem BatchShape.tile_lt_of_mem {shape : BatchShape} {turn t : Turn} {x : TileScope × Turn}
    (hx : x ∈ shape.turns turn) (ht : t ∈ x.1.turns x.2) :
    t "tile_idx" < shape.offset + shape.remainder := by
  have hmem : t "tile_idx" ∈ List.range (shape.offset + shape.remainder) := by
    rw [← tiles_turns shape turn]
    exact List.mem_flatMap.mpr ⟨x, hx, List.mem_map_of_mem ht⟩
  exact List.mem_range.mp hmem

namespace StageView

variable {v : StageView}

/-- The tiles that a stage works on are those of its output. -/
theorem tile_batchTurns (v : StageView) :
    (v.batchTurns.flatMap fun x => (x.1.turns x.2).map (· "tile_idx")) =
      List.range v.output.tiles := by
  unfold batchTurns
  rw [tiles_turns, batches, BatchShape.split_total]

theorem tile_lt_of_mem {x : TileScope × Turn} {turn : Turn} (hx : x ∈ v.batchTurns)
    (hturn : turn ∈ x.1.turns x.2) : turn "tile_idx" < v.output.tiles := by
  rw [← BatchShape.split_total v.output.tiles v.stage.batchSize]
  exact BatchShape.tile_lt_of_mem hx hturn

theorem exists_turn_of_lt {n : Nat} (hn : n < v.output.tiles) :
    ∃ x ∈ v.batchTurns, ∃ turn ∈ x.1.turns x.2, turn "tile_idx" = n := by
  have hmem : n ∈ List.range v.output.tiles := List.mem_range.mpr hn
  rw [← v.tile_batchTurns] at hmem
  obtain ⟨x, hx, hn⟩ := List.mem_flatMap.mp hmem
  obtain ⟨turn, hturn, rfl⟩ := List.mem_map.mp hn
  exact ⟨x, hx, turn, hturn, rfl⟩

/-! ## What the loads of a stage touch -/

/-- The index expressions of a stage's loads. -/
inductive Loading (v : StageView) : List (Slot × Index) → Prop where
  /-- A tile of each operand. -/
  | pair (h : v.stage.spec.arithmetic ≠ .matmul) (hfresh : v.loader.fresh.length = 2)
      (hunit : (∃ op, v.stage.spec.arithmetic = .eltwise op) ∨
        v.loader.kind.spread = .scalar ∨ v.SpreadsCopy) :
      Loading v [(.first, .tile), (.second, .second v.loader.kind.spread)]
  /-- A tile of the first operand. -/
  | single (h : v.stage.spec.arithmetic ≠ .matmul) : Loading v [(.first, .tile)]
  /-- A tile of the first operand, with the scalers. -/
  | reduce (h : v.stage.spec.arithmetic ≠ .matmul) :
      Loading v [(.first, .tile), (.second, .const 0)]
  /-- A tile of each factor. -/
  | matmul (h : v.stage.spec.arithmetic = .matmul) :
      Loading v [(.first, .const 0), (.second, .const 0),
        (.first, .leftFactor v.output.dims.tileCols v.stage.innerTiles),
        (.second, .rightFactor v.output.dims.tileCols)]
  /-- A tile out of a row of tiles. -/
  | tilize (h : v.stage.spec.arithmetic ≠ .matmul) :
      Loading v [(.first, .tilizedRow v.output.dims.tileCols),
        (.first, .add (.tilizedRow v.output.dims.tileCols)
          (.tilizedColumn v.output.dims.tileCols))]

/-- A loader that takes tiles as they are brings in one of each operand that is read from memory. -/
theorem indices_of_direct (hkind : v.loader.kind = .direct ∨ ∃ s, v.loader.kind = .broadcast s)
    (hne : v.stage.spec.arithmetic ≠ .matmul) {load : Call}
    (h : v.unpacking.perTile = v.tileBody load) :
    load.indices = if v.loader.fresh.length = 2
      then [(.first, .tile), (.second, .second v.loader.kind.spread)] else [(.first, .tile)] := by
  have hbody : v.tileBody load = .call load := by
    unfold tileBody
    cases ha : v.stage.spec.arithmetic <;> simp_all
  rw [hbody] at h
  unfold unpacking at h
  by_cases hf : v.loader.fresh.length = 2 <;>
    rcases hkind with hk | ⟨s, hk⟩ <;>
    simp only [hk, hf, beq_self_eq_true, if_true, beq_iff_eq, if_false] at h ⊢ <;>
    obtain rfl := Stmt.call.inj h <;> rfl

/-- The calls of a stage that bring tiles in are of one of these forms. -/
theorem loading_of_load (hc : Combination v.settings.platform v.stage.spec) {load : Call}
    (h : v.unpacking.perTile = v.tileBody load) : Loading v load.indices := by
  have hfeeds := hc.feeds
  have hcount : v.loader.fresh.length = freshWanted v.stage.spec := hc.count
  cases hk : v.stage.spec.loader.kind <;> cases ha : v.stage.spec.arithmetic <;>
    simp only [hk, ha, feeds, Bool.false_eq_true] at hfeeds
  case reduce.reduce =>
    simp only [unpacking, tileBody, loader, hk, ha] at h
    obtain rfl := Stmt.call.inj h
    exact .reduce (by simp [ha])
  case matmul.matmul =>
    simp only [unpacking, tileBody, loader, hk, ha] at h
    obtain ⟨-, -, hload⟩ := Stmt.loop.inj h
    obtain rfl := Stmt.call.inj (List.cons.inj hload).1
    exact .matmul ha
  case tilize.datacopy =>
    simp only [unpacking, tileBody, loader, hk, ha] at h
    obtain rfl := Stmt.call.inj h
    exact .tilize (by simp [ha])
  case direct.eltwise op =>
    rw [indices_of_direct (.inl hk) (by simp [ha]) h]
    split
    · exact .pair (by simp [ha]) ‹_› (.inl ⟨op, ha⟩)
    · exact .single (by simp [ha])
  case direct.datacopy =>
    -- a plain copy takes one operand, or none that is read from memory
    have hone : v.loader.fresh.length ≠ 2 := by
      rw [hcount, freshWanted, ha, hk]
      cases v.stage.spec.loader.reuse <;> simp
    rw [indices_of_direct (.inl hk) (by simp [ha]) h, if_neg hone]
    exact .single (by simp [ha])
  case broadcast.eltwise s op =>
    rw [indices_of_direct (.inr ⟨s, hk⟩) (by simp [ha]) h]
    split
    · exact .pair (by simp [ha]) ‹_› (.inl ⟨op, ha⟩)
    · exact .single (by simp [ha])
  case broadcast.datacopy s =>
    rw [indices_of_direct (.inr ⟨s, hk⟩) (by simp [ha]) h]
    split
    · refine .pair (by simp [ha]) ‹_› (.inr ?_)
      by_cases hs : s = .scalar
      · exact .inl (by simp [loader, hk, hs, LoaderKind.spread])
      · exact .inr ⟨ha, s, hk, hs⟩
    · exact .single (by simp [ha])

/-- A copy that spreads its second operand reads it tile by tile. -/
theorem indices_of_spreadsCopy (hc : Combination v.settings.platform v.stage.spec)
    (hs : v.SpreadsCopy) {load : Call} (h : v.unpacking.perTile = v.tileBody load) :
    load.indices = [(.first, .tile), (.second, .tile)] := by
  obtain ⟨hcopy, s, hk, hscalar⟩ := hs
  have hkind : v.stage.spec.loader.kind = .broadcast s := hk
  have hreuse : v.stage.spec.loader.reuse = .none := by
    by_contra hreuse
    obtain ⟨hdirect, -⟩ := hc.reuse hreuse
    simp [hkind] at hdirect
  have htwo : v.loader.fresh.length = 2 := by
    show v.stage.spec.loader.fresh.length = 2
    rw [hc.count, freshWanted, hcopy, hreuse, hkind]
  have hsecond : Index.second v.loader.kind.spread = .tile := by
    cases s <;> simp [hk, LoaderKind.spread, Index.second] at hscalar ⊢
  rw [indices_of_direct (.inr ⟨s, hk⟩) (by simp [hcopy]) h, if_pos htwo, hsecond]

end StageView

/-! ## The places lie in the buffers -/

namespace Index

variable (turn : Turn)

theorem eval_leftFactor (columns inner : Nat) :
    (leftFactor columns inner).eval turn = turn "tile_idx" / columns * inner + turn "kt" := rfl

theorem eval_rightFactor (columns : Nat) :
    (rightFactor columns).eval turn = turn "kt" * columns + turn "tile_idx" % columns := rfl

theorem eval_tilizedRow (columns : Nat) :
    (tilizedRow columns).eval turn = turn "tile_idx" / columns * columns := rfl

/-- The tile that is tilized is the one that is being worked on. -/
theorem eval_tilized (columns : Nat) :
    ((tilizedRow columns).add (tilizedColumn columns)).eval turn = turn "tile_idx" :=
  Nat.div_add_mod' ..

end Index

theorem leftFactor_lt {rows columns inner tile step : Nat} (htile : tile < rows * columns)
    (hstep : step < inner) : tile / columns * inner + step < rows * inner := by
  have hrow : tile / columns < rows := by
    rw [Nat.mul_comm] at htile
    exact Nat.div_lt_of_lt_mul htile
  calc tile / columns * inner + step
      < tile / columns * inner + inner := by omega
    _ = (tile / columns + 1) * inner := (Nat.succ_mul ..).symm
    _ ≤ rows * inner := Nat.mul_le_mul_right inner hrow

theorem rightFactor_lt {columns inner step : Nat} (tile : Nat) (hpos : 0 < columns)
    (hstep : step < inner) : step * columns + tile % columns < inner * columns := by
  have hcolumn := Nat.mod_lt tile hpos
  calc step * columns + tile % columns
      < step * columns + columns := by omega
    _ = (step + 1) * columns := (Nat.succ_mul ..).symm
    _ ≤ inner * columns := Nat.mul_le_mul_right columns hstep

theorem Dims.Whole.tileRows_pos {d : Dims} (h : d.Whole) : 0 < d.tileRows := by
  obtain ⟨hpos, -, -, -⟩ := h
  unfold Dims.tileRows tileSide
  omega

theorem Operand.Counted.tiles_pos {o : Operand} (h : o.Counted) (hw : o.dims.Whole) :
    0 < o.tiles := by
  rw [h]
  obtain ⟨hcols, hpos⟩ := hw.tileCols_eq
  exact Nat.mul_pos hw.tileRows_pos (hcols ▸ hpos)

theorem Operand.Counted.tiles_eq {o o' : Operand} (h : o.Counted) (h' : o'.Counted)
    (hdims : o.dims = o'.dims) : o.tiles = o'.tiles := by
  rw [h, h', hdims]

namespace StageView

variable {v : StageView}

/-- The shapes of a matrix product, counted in tiles. -/
theorem Measured.product_tiles (hm : v.Measured) (h : v.stage.spec.arithmetic = .matmul) :
    v.bufferA.tiles = v.output.dims.tileRows * v.stage.innerTiles ∧
      v.bufferB.tiles = v.stage.innerTiles * v.output.dims.tileCols := by
  obtain ⟨hdims, hcols, hinner⟩ := hm.product h
  refine ⟨?_, ?_⟩
  · rw [hm.countedA, hinner, hdims]
    rfl
  · rw [hm.countedB, hinner, hdims, Dims.tileRows, ← hcols]
    rfl

/-- The places of a load lie in the buffers of its stage, except for the second operand of a copy
that spreads it. -/
theorem eval_lt_of_loading (hm : v.Measured) {indices : List (Slot × Index)}
    (h : Loading v indices) {turn : Turn} (htile : turn "tile_idx" < v.output.tiles)
    (hstep : v.stage.spec.arithmetic = .matmul → turn "kt" < v.stage.innerTiles)
    {x : Slot × Index} (hx : x ∈ indices) (hexempt : x.1 = .second → ¬v.SpreadsCopy) :
    x.2.eval turn < (v.buffer x.1).tiles := by
  have hfirst : v.stage.spec.arithmetic ≠ .matmul → v.bufferA.tiles = v.output.tiles :=
    fun hne => hm.countedA.tiles_eq hm.countedOutput (hm.copied hne)
  have hposA := hm.countedA.tiles_pos hm.wholeA
  have hposB := hm.countedB.tiles_pos hm.wholeB
  cases h with
  | pair hne hfresh hunit =>
    rcases List.mem_pair.mp hx with rfl | rfl
    · show turn "tile_idx" < v.bufferA.tiles
      rwa [hfirst hne]
    · show (Index.second v.loader.kind.spread).eval turn < v.bufferB.tiles
      by_cases hscalar : v.loader.kind.spread = .scalar
      · rw [hscalar]
        exact hposB
      · have hsecond : Index.second v.loader.kind.spread = .tile := by
          cases hs : v.loader.kind.spread <;> simp_all [Index.second]
        obtain ⟨op, hop⟩ | hunit | hunit := hunit
        · have hdims := hm.paired op hop hfresh hscalar
          rw [hsecond, hm.countedB.tiles_eq hm.countedOutput hdims]
          exact htile
        · exact absurd hunit hscalar
        · exact absurd hunit (hexempt rfl)
  | single hne =>
    obtain rfl := List.mem_singleton.mp hx
    show turn "tile_idx" < v.bufferA.tiles
    rwa [hfirst hne]
  | reduce hne =>
    rcases List.mem_pair.mp hx with rfl | rfl
    · show turn "tile_idx" < v.bufferA.tiles
      rwa [hfirst hne]
    · exact hposB
  | matmul hmul =>
    obtain ⟨hA, hB⟩ := hm.product_tiles hmul
    rw [hm.countedOutput] at htile
    have hcolumns : 0 < v.output.dims.tileCols := Nat.pos_of_mul_pos_left (Nat.zero_lt_of_lt htile)
    simp only [List.mem_cons, List.not_mem_nil, or_false] at hx
    rcases hx with rfl | rfl | rfl | rfl
    · exact hposA
    · exact hposB
    · rw [Index.eval_leftFactor, buffer, hA]
      exact leftFactor_lt htile (hstep hmul)
    · rw [Index.eval_rightFactor, buffer, hB]
      exact rightFactor_lt _ hcolumns (hstep hmul)
  | tilize hne =>
    rcases List.mem_pair.mp hx with rfl | rfl
    · rw [Index.eval_tilizedRow, buffer, hfirst hne]
      exact Nat.lt_of_le_of_lt (Nat.div_mul_le_self ..) htile
    · rw [Index.eval_tilized, buffer, hfirst hne]
      exact htile

/-! ## The calls that touch memory -/

/-- The turns of a stage's loads. -/
theorem lt_of_mem_workTurns {x : TileScope × Turn} {turn : Turn} (hx : x ∈ v.batchTurns)
    (hturn : turn ∈ v.workTurns x) : turn "tile_idx" < v.output.tiles ∧
      (v.stage.spec.arithmetic = .matmul → turn "kt" < v.stage.innerTiles) := by
  obtain ⟨outer, houter, hturn⟩ := List.mem_flatMap.mp hturn
  have htile := tile_lt_of_mem hx houter
  unfold innerTurns at hturn
  cases ha : v.stage.spec.arithmetic with
  | matmul =>
    rw [ha] at hturn
    obtain ⟨n, hn, rfl⟩ := List.mem_map.mp hturn
    rw [Turn.set_self, Turn.set_of_ne outer (by decide)]
    exact ⟨htile, fun _ => List.mem_range.mp hn⟩
  | _ =>
    rw [ha] at hturn
    rw [List.mem_singleton.mp hturn]
    exact ⟨htile, by simp⟩

end StageView

theorem not_mem_accesses {e : Event} (h : e.call.stage? = none) (x : Access) :
    x ∉ e.accesses := by
  simp [Event.accesses, h]

theorem accesses_of_stage? {e : Event} {s : Nat} (h : e.call.stage? = some s) :
    e.accesses = e.call.indices.map fun x => ⟨s, x.1, x.2.eval e.turn⟩ := by
  simp [Event.accesses, h]

theorem stage?_eq_none {call : Call} (heffect : call.effect ≠ .load) (hpack : call.pack? = none) :
    call.stage? = none := by
  rw [Call.stage?, load?_eq_none heffect, hpack]
  rfl

theorem stage?_of_load? {call : Call} {s : Nat} (h : call.load? = some s) :
    call.stage? = some s := by
  rw [Call.stage?, h]
  rfl

/-- Only packing writes to memory, and it writes the tile that is being worked on. -/
theorem indices_of_pack? {call : Call} {s : Nat} (h : call.pack? = some s) :
    call.stage? = some s ∧ call.indices = [(.result, .tile)] := by
  cases call <;> simp [Call.pack?] at h
  subst h
  exact ⟨rfl, rfl⟩

namespace StageView

variable {v : StageView}

/-- In the unpack thread only the loads touch memory. -/
theorem exists_of_unpack (h : v.Fed) {load : Call} (hload : v.unpacking.perTile = v.tileBody load)
    (hstage : load.load? = some v.index) {e : Event} (he : e ∈ v.unpackEvents) {x : Access}
    (hx : x ∈ e.accesses) :
    ∃ b ∈ v.batchTurns, ∃ turn ∈ v.workTurns b, ∃ y ∈ load.indices,
      x = ⟨v.index, y.1, y.2.eval turn⟩ := by
  obtain ⟨⟨hinit, hinitPack⟩, -⟩ := exists_load h
  obtain ⟨config, hconfig, hconfigPack, heq⟩ := unpackEvents_eq hload
  rw [heq] at he
  rcases List.mem_cons.mp he with rfl | he
  · exact absurd hx (not_mem_accesses (stage?_eq_none (by simp [hconfig]) hconfigPack) x)
  rcases List.mem_append.mp he with he | he
  · split at he
    · simp at he
    · rw [List.mem_singleton.mp he] at hx
      exact absurd hx (not_mem_accesses rfl x)
  obtain ⟨b, hb, he⟩ := List.mem_flatMap.mp he
  rcases List.mem_cons.mp he with rfl | he
  · exact absurd hx (not_mem_accesses (stage?_eq_none (by simp [hinit]) hinitPack) x)
  · obtain ⟨turn, hturn, rfl⟩ := List.mem_map.mp he
    rw [accesses_of_stage? (stage?_of_load? hstage)] at hx
    obtain ⟨y, hy, rfl⟩ := List.mem_map.mp hx
    exact ⟨b, hb, turn, hturn, y, hy, rfl⟩

/-- The math thread touches none. -/
theorem not_mem_accesses_of_math {e : Event} (he : e ∈ v.mathEvents) (x : Access) :
    x ∉ e.accesses := by
  have hnonlinear : ∀ unit, ∀ call ∈ callsOf (v.nonlinearSection unit).body,
      call.stage? = none := by
    intro unit
    unfold nonlinearSection
    cases unit <;> simp [Call.stage?, Call.load?, Call.pack?]
  have harithmetic : ∀ call ∈ callsOf v.arithmeticSection.body, call.stage? = none := by
    unfold arithmeticSection
    cases ha : v.stage.spec.arithmetic <;> simp [ha, Call.stage?, Call.load?, Call.pack?]
  have hcalls : ∀ call ∈ callsOf v.mathSection.body, call.stage? = none := by
    intro call hcall
    simp only [mathSection, callsOf, Stmt.calls, callsOf_append, callsOf_flatMap,
      List.flatMap_map, List.mem_append, List.mem_flatMap, List.mem_singleton,
      List.not_mem_nil, or_false, false_or] at hcall
    rcases hcall with rfl | rfl | ((rfl | hcall) | ⟨unit, -, hcall⟩) | rfl
    · split <;> rfl
    · rfl
    · rfl
    · exact harithmetic call hcall
    · exact hnonlinear unit call hcall
    · rfl
  exact not_mem_accesses (hcalls e.call (call_mem_of_mem_unrollAll _ he)) x

/-- In the pack thread only the packs do. -/
theorem exists_of_pack {e : Event} (he : e ∈ v.packEvents) {x : Access} (hx : x ∈ e.accesses) :
    ∃ b ∈ v.batchTurns, ∃ turn ∈ b.1.turns b.2, x = ⟨v.index, .result, turn "tile_idx"⟩ := by
  obtain ⟨configs, masks, pack, release, hconfigs, hmasks, -, hstage, hrelease, hnone, heq⟩ :=
    v.packEvents_eq
  have hsilent : ∀ {call : Call} {turn : Turn}, call.effect = .silent ∧ call.pack? = none →
      x ∉ (⟨call, turn⟩ : Event).accesses := by
    intro call turn h
    exact not_mem_accesses (stage?_eq_none (by simp [h.1]) h.2) x
  rw [heq] at he
  simp only [List.mem_append, List.mem_flatMap, List.mem_cons, List.not_mem_nil, or_false,
    List.mem_map] at he
  rcases he with ((he | ⟨b, hb, rfl | ⟨turn, hturn, rfl⟩ | rfl⟩) | he) | he
  · exact absurd hx (hsilent (hconfigs e he))
  · exact absurd hx (not_mem_accesses rfl x)
  · obtain ⟨hs, hindices⟩ := indices_of_pack? hstage
    rw [accesses_of_stage? hs, hindices] at hx
    exact ⟨b, hb, turn, hturn, List.mem_singleton.mp hx⟩
  · exact absurd hx (not_mem_accesses (stage?_eq_none (by simp [hrelease]) hnone) x)
  · exact absurd hx (hsilent (hmasks e he))
  · split at he
    · simp at he
    · rw [List.mem_singleton.mp he] at hx
      exact absurd hx (not_mem_accesses rfl x)

/-- The accesses of a stage lie in its buffers, except that a spread copy reads its second operand
wherever the output has a tile. -/
theorem access_lt (h : v.Fed) (hm : v.Measured) {t : Thread} {e : Event} (he : e ∈ v.events t)
    {x : Access} (hx : x ∈ e.accesses) :
    x.stage = v.index ∧ (x.tile < (v.buffer x.slot).tiles ∨
      x.slot = .second ∧ v.SpreadsCopy ∧ x.tile < v.output.tiles) := by
  cases t with
  | unpack =>
    obtain ⟨-, load, hload, -, hstage⟩ := exists_load h
    obtain ⟨b, hb, turn, hturn, y, hy, rfl⟩ := exists_of_unpack h hload hstage he hx
    obtain ⟨htile, hstep⟩ := lt_of_mem_workTurns hb hturn
    refine ⟨rfl, ?_⟩
    by_cases hexempt : y.1 = .second ∧ v.SpreadsCopy
    · have heval : y.2.eval turn = turn "tile_idx" := by
        rw [indices_of_spreadsCopy hm.combination hexempt.2 hload] at hy
        rcases List.mem_pair.mp hy with rfl | rfl <;> rfl
      exact .inr ⟨hexempt.1, hexempt.2, heval ▸ htile⟩
    · exact .inl (eval_lt_of_loading hm (loading_of_load hm.combination hload) htile hstep hy
        (not_and.mp hexempt))
  | math => exact absurd hx (not_mem_accesses_of_math he x)
  | pack =>
    obtain ⟨b, hb, turn, hturn, rfl⟩ := exists_of_pack he hx
    exact ⟨rfl, .inl (tile_lt_of_mem hb hturn)⟩

/-- And it does so for every tile of the output. -/
theorem exists_access_of_spreadsCopy (h : v.Fed) (hm : v.Measured) (hs : v.SpreadsCopy) {n : Nat}
    (hn : n < v.output.tiles) :
    ∃ e ∈ v.unpackEvents, (⟨v.index, .second, n⟩ : Access) ∈ e.accesses := by
  obtain ⟨-, load, hload, -, hstage⟩ := exists_load h
  obtain ⟨config, -, -, heq⟩ := unpackEvents_eq hload
  obtain ⟨b, hb, turn, hturn, rfl⟩ := exists_turn_of_lt hn
  have hwork : turn ∈ v.workTurns b := by
    refine List.mem_flatMap.mpr ⟨turn, hturn, ?_⟩
    simp [innerTurns, hs.1]
  refine ⟨⟨load, turn⟩, ?_, ?_⟩
  · rw [heq]
    refine List.mem_cons_of_mem _ (List.mem_append_right _ (List.mem_flatMap.mpr ⟨b, hb, ?_⟩))
    exact List.mem_cons_of_mem _ (List.mem_map_of_mem hwork)
  · rw [accesses_of_stage? (stage?_of_load? hstage),
      indices_of_spreadsCopy hm.combination hs hload]
    exact List.mem_cons_of_mem _ (List.mem_cons_self ..)

end StageView

/-! ## The kernel of a pipeline -/

section Built

variable {r : Registry} {specs : List StageSpec} {settings : Settings} {p : Pipeline}

/-- A spread copy of too few tiles leaves its second operand. -/
theorem not_inBounds_of_spreadsCopy (hr : r.Declared)
    (hp : (Pipeline.build r specs settings).value = .ok p) {v : StageView} (hv : v ∈ p.views)
    (hs : v.SpreadsCopy) (hlt : v.bufferB.tiles < v.output.tiles) : ¬p.InBounds := by
  intro hbounds
  have hordered := ordered_of_build hp
  -- the first place behind the end of the operand
  obtain ⟨e, he, hx⟩ := StageView.exists_access_of_spreadsCopy (hordered.fed v hv)
    (measured_of_build hr hp v hv) hs hlt
  have hmem : e ∈ (p.lower.thread .unpack).events := by
    rw [p.events_thread]
    exact List.mem_flatMap.mpr ⟨v, hv, he⟩
  obtain ⟨w, hw, hindex, hbound⟩ := hbounds .unpack e hmem _ hx
  rw [hordered.eq_of_index hw hv hindex] at hbound
  exact Nat.lt_irrefl _ hbound

/-- All tiles that the kernel of a built pipeline touches lie in the operands that the buffers are
declared for, with one exception: nothing is demanded of the shape of an operand that a copy
spreads. So the kernel stays in bounds exactly when all of these have enough tiles. -/
theorem accesses_within (hr : r.Declared)
    (hp : (Pipeline.build r specs settings).value = .ok p) :
    (∀ t, ∀ e ∈ (p.lower.thread t).events, ∀ x ∈ e.accesses, ∃ v ∈ p.views, v.index = x.stage ∧
      (x.tile < (v.buffer x.slot).tiles ∨ x.slot = .second ∧ v.SpreadsCopy)) ∧
    (p.InBounds ↔ ∀ v ∈ p.views, v.SpreadsCopy → v.output.tiles ≤ v.bufferB.tiles) := by
  have hordered := ordered_of_build hp
  have haccess : ∀ t, ∀ e ∈ (p.lower.thread t).events, ∀ x ∈ e.accesses, ∃ v ∈ p.views,
      v.index = x.stage ∧ (x.tile < (v.buffer x.slot).tiles ∨
        x.slot = .second ∧ v.SpreadsCopy ∧ x.tile < v.output.tiles) := by
    intro t e he x hx
    rw [p.events_thread] at he
    obtain ⟨v, hv, he⟩ := List.mem_flatMap.mp he
    obtain ⟨hstage, hlt⟩ :=
      StageView.access_lt (hordered.fed v hv) (measured_of_build hr hp v hv) he hx
    exact ⟨v, hv, hstage.symm, hlt⟩
  refine ⟨?_, ?_, ?_⟩
  · intro t e he x hx
    obtain ⟨v, hv, hindex, hlt⟩ := haccess t e he x hx
    exact ⟨v, hv, hindex, hlt.imp_right fun h => ⟨h.1, h.2.1⟩⟩
  · intro hbounds v hv hs
    by_contra hlt
    exact not_inBounds_of_spreadsCopy hr hp hv hs (Nat.lt_of_not_le hlt) hbounds
  · intro hroom t e he x hx
    obtain ⟨v, hv, hindex, hlt | ⟨hslot, hs, hlt⟩⟩ := haccess t e he x hx
    · exact ⟨v, hv, hindex, hlt⟩
    · refine ⟨v, hv, hindex, ?_⟩
      rw [hslot]
      exact Nat.lt_of_lt_of_le hlt (hroom v hv hs)

end Built

/-! ## Copies of a column -/

/-- A matrix of two by two tiles. -/
def columnInput : Operand :=
  ⟨0, "a", .input, none, .floating, some ⟨⟨64, 64⟩, .float16b, 4, 8192⟩⟩

/-- The matrix and a second operand. -/
def columnRegistry (c : Contents) : Registry :=
  ⟨[columnInput, ⟨1, "b", .input, none, .floating, some c⟩]⟩

/-- Copies the second operand, spread along the columns. -/
def columnSpecs : List StageSpec :=
  [{ loader := ⟨.broadcast .column, "a", some "b", .none, false, false⟩
     arithmetic := .datacopy
     nonlinear := []
     output := "y"
     outputFormat := .float16b
     fidelity := .lofi
     unpackToDest := false }]

/-- One tile a batch. -/
def columnSettings : Settings :=
  ⟨.wormhole, false, 1, .half⟩

theorem declared_columnInput : Registry.Declared ⟨[columnInput]⟩ :=
  .input "a" ⟨64, 64⟩ .float16b none .empty rfl

/-- A second operand of another shape, with as many tiles, is read within its bounds. -/
theorem accesses_within_tall :
    ∃ p, (Pipeline.build (columnRegistry ⟨⟨128, 32⟩, .float16b, 4, 8192⟩) columnSpecs
      columnSettings).value = .ok p ∧ p.InBounds := by
  have hr : (columnRegistry ⟨⟨128, 32⟩, .float16b, 4, 8192⟩).Declared :=
    .input "b" ⟨128, 32⟩ .float16b none declared_columnInput rfl
  obtain ⟨p, hp, hviews⟩ := exists_build_of_any (columnRegistry ⟨⟨128, 32⟩, .float16b, 4, 8192⟩)
    columnSpecs columnSettings
    (fun p => p.views.all fun v => v.output.tiles ≤ v.bufferB.tiles) (by decide +kernel)
  refine ⟨p, hp, (accesses_within hr hp).2.mpr fun v hv _ => ?_⟩
  simpa using List.all_eq_true.mp hviews v hv

/-- A second operand of one tile is built and overrun: four tiles are read out of it. -/
theorem spread_copy_overruns :
    ∃ p, (columnRegistry ⟨⟨32, 32⟩, .float16b, 1, 2048⟩).Declared ∧
      (Pipeline.build (columnRegistry ⟨⟨32, 32⟩, .float16b, 1, 2048⟩) columnSpecs
        columnSettings).value = .ok p ∧ ¬p.InBounds := by
  have hr : (columnRegistry ⟨⟨32, 32⟩, .float16b, 1, 2048⟩).Declared :=
    .input "b" ⟨32, 32⟩ .float16b none declared_columnInput rfl
  obtain ⟨p, hp, hviews⟩ := exists_build_of_any (columnRegistry ⟨⟨32, 32⟩, .float16b, 1, 2048⟩)
    columnSpecs columnSettings
    (fun p => p.views.any fun v => v.stage.spec.arithmetic == .datacopy &&
      v.loader.kind == .broadcast .column && v.bufferB.tiles < v.output.tiles) (by decide +kernel)
  obtain ⟨v, hv, hcheck⟩ := List.any_eq_true.mp hviews
  simp only [Bool.and_eq_true, beq_iff_eq, decide_eq_true_eq] at hcheck
  obtain ⟨⟨hcopy, hkind⟩, hlt⟩ := hcheck
  exact ⟨p, hr, hp, not_inBounds_of_spreadsCopy hr hp hv ⟨hcopy, .column, hkind, by simp⟩ hlt⟩

end TileFusion
