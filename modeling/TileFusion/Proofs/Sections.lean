import TileFusion.Proofs.BuiltStages

/-!
# What is written in a section

Every stage writes one section into each of the three threads. This file reads a section as text,
not as a run: which identifiers it declares, and how often it goes through batches. Both are read
off with one traversal, `gatherAll`, so that they compose the way statements do.

> `declarations_section`: the identifiers of a stage, thread by thread;
> `shapes_section`: each section has one loop over batches, of the same shape in all threads.
-/

namespace TileFusion

/-! ## Reading statements -/

mutual

/-- What `f` reads off a statement and off the statements inside it. -/
def Stmt.gather {α : Type} (f : Stmt → List α) : Stmt → List α
  | .comment text => f (.comment text)
  | .declare declaration => f (.declare declaration)
  | .call call => f (.call call)
  | .batched shape body => f (.batched shape body) ++ gatherAll f body
  | .forEachTile body => f (.forEachTile body) ++ gatherAll f body
  | .loop counter count body => f (.loop counter count body) ++ gatherAll f body
  | .blank => f .blank

/-- What `f` reads off statements in a row. -/
def gatherAll {α : Type} (f : Stmt → List α) : List Stmt → List α
  | [] => []
  | stmt :: rest => stmt.gather f ++ gatherAll f rest

end

attribute [simp] Stmt.gather gatherAll

@[simp] theorem gatherAll_append {α : Type} (f : Stmt → List α) (xs ys : List Stmt) :
    gatherAll f (xs ++ ys) = gatherAll f xs ++ gatherAll f ys := by
  induction xs with
  | nil => rfl
  | cons x xs ih => simp [ih]

@[simp] theorem gatherAll_flatMap {α β : Type} (f : Stmt → List α) (g : β → List Stmt)
    (xs : List β) : gatherAll f (xs.flatMap g) = xs.flatMap fun x => gatherAll f (g x) := by
  induction xs with
  | nil => rfl
  | cons x xs ih => simp [ih]

/-- The declaration that a statement is. -/
def Stmt.declaration : Stmt → List Declaration
  | .declare d => [d]
  | _ => []

/-- The shape of the batches that a statement goes through. -/
def Stmt.shape : Stmt → List BatchShape
  | .batched shape _ => [shape]
  | _ => []

/-- Everything that is declared. -/
def declarationsOf (body : List Stmt) : List Declaration :=
  gatherAll Stmt.declaration body

/-- The shapes of all loops over batches. -/
def shapesOf (body : List Stmt) : List BatchShape :=
  gatherAll Stmt.shape body

/-- The identifier that is declared. -/
def Declaration.name : Declaration → String
  | .buffer name .. | .format name .. | .destSync name .. => name

/-! ## Sections -/

namespace StageView

/-- What a stage writes into a thread. -/
def contribution (v : StageView) : Thread → Section
  | .unpack => v.unpackSection
  | .math => v.mathSection
  | .pack => v.packSection

/-- The identifiers that a stage declares in a thread. -/
def declarations (v : StageView) : Thread → List Declaration
  | .unpack =>
    [.buffer (StageNames.bufferA v.index) v.bufferA.address v.bufferA.format.tileBytes true,
      .buffer (StageNames.bufferB v.index) v.bufferB.address v.bufferB.format.tileBytes true,
      .format (StageNames.unpackSourceA v.index) v.stage.formats.loadA.source true,
      .format (StageNames.unpackTargetA v.index) v.stage.formats.loadA.target true,
      .format (StageNames.unpackSourceB v.index) v.stage.formats.loadB.source true,
      .format (StageNames.unpackTargetB v.index) v.stage.formats.loadB.target true]
  | .math =>
    [.format (StageNames.mathFormat v.index) v.stage.formats.compute false,
      .destSync (StageNames.destSync v.index) v.settings.destSync]
  | .pack =>
    [.buffer (StageNames.bufferResult v.index) v.output.address v.output.format.tileBytes false,
      .format (StageNames.packSource v.index) v.stage.formats.storeSource false,
      .format (StageNames.packTarget v.index) v.stage.formats.storeTarget false]

end StageView

/-! ## Bringing tiles in -/

namespace StageView

/-- The reuse that a stage asks for: only the elementwise unit reads the accumulator. -/
def reuse (v : StageView) : Reuse :=
  match v.stage.spec.arithmetic with
  | .eltwise _ => v.loader.reuse
  | _ => .none

/-- The forms in which a stage brings its tiles in. -/
theorem unpacking_cases (v : StageView) :
    (v.loader.kind = .tilize ∧
      v.unpacking.init = .unpackTilizeInit v.index v.output.dims.tileCols ∧
      v.unpacking.perTile = .call (.unpackTilize v.index v.output.dims.tileCols)) ∨
    (v.loader.kind = .reduce ∧ ∃ pool dim, reduceParameters v.stage.spec.arithmetic = (pool, dim) ∧
      v.unpacking.init = .unpackReduceInit pool dim ∧
      v.unpacking.perTile = .call (.unpackReduce v.index pool dim)) ∨
    (v.loader.kind = .matmul ∧
      v.unpacking.init = .unpackMatmulInit v.stage.innerTiles ∧
      v.unpacking.perTile = .loop "kt" v.stage.innerTiles
        [.call (.unpackMatmul v.index v.output.dims.tileCols v.stage.innerTiles
          v.stage.formats.loadA.source.tileWords v.stage.formats.loadB.source.tileWords)]) ∨
    ((v.loader.kind = .direct ∨ ∃ s, v.loader.kind = .broadcast s) ∧ v.loader.fresh.length = 2 ∧
      v.unpacking.init = .unpackPairInit v.loader.kind.spread v.loader.transposeFaces ∧
      v.unpacking.perTile = .call (.unpackPair v.index v.loader.kind.spread)) ∨
    ((v.loader.kind = .direct ∨ ∃ s, v.loader.kind = .broadcast s) ∧ v.loader.fresh.length ≠ 2 ∧
      v.unpacking.init = .unpackSingleInit v.index v.reuse v.stage.spec.unpackToDest
        v.loader.transposeFaces v.loader.transposeWithinFace ∧
      v.unpacking.perTile = .call (.unpackSingle v.index v.reuse v.stage.spec.unpackToDest)) := by
  unfold unpacking
  cases hk : v.loader.kind with
  | tilize => simp [hk]
  | reduce => simp [hk]
  | matmul => simp [hk]
  | direct | broadcast s =>
    by_cases hf : v.loader.fresh.length = 2
    · simp [hk, hf]
    · refine .inr (.inr (.inr (.inr ⟨by simp, hf, ?_, ?_⟩))) <;>
        simp only [hk, beq_iff_eq, if_neg hf] <;> rfl

end StageView

/-- A reading that passes over calls and the loops around them. -/
structure Quiet {α : Type} (f : Stmt → List α) : Prop where
  comment : ∀ text, f (.comment text) = []
  call : ∀ call, f (.call call) = []
  forEachTile : ∀ body, f (.forEachTile body) = []
  loop : ∀ counter count body, f (.loop counter count body) = []

theorem quiet_declaration : Quiet Stmt.declaration :=
  ⟨fun _ => rfl, fun _ => rfl, fun _ => rfl, fun _ _ _ => rfl⟩

theorem quiet_shape : Quiet Stmt.shape :=
  ⟨fun _ => rfl, fun _ => rfl, fun _ => rfl, fun _ _ _ => rfl⟩

namespace Quiet

variable {α : Type} {f : Stmt → List α}

theorem perTile (h : Quiet f) (v : StageView) : v.unpacking.perTile.gather f = [] := by
  obtain ⟨-, -, hstmt⟩ | ⟨-, pool, dim, -, -, hstmt⟩ | ⟨-, -, hstmt⟩ | ⟨-, -, -, hstmt⟩ |
    ⟨-, -, -, hstmt⟩ := v.unpacking_cases <;> simp [hstmt, h.call, h.loop]

theorem arithmetic (h : Quiet f) (v : StageView) : gatherAll f v.arithmeticSection.body = [] := by
  unfold StageView.arithmeticSection
  cases ha : v.stage.spec.arithmetic <;> simp [ha, h.comment, h.call, h.forEachTile, h.loop]

theorem nonlinear (h : Quiet f) (v : StageView) (unit : Nonlinear) :
    gatherAll f (v.nonlinearSection unit).body = [] := by
  unfold StageView.nonlinearSection
  cases unit <;> simp [h.comment, h.call, h.forEachTile]

end Quiet

namespace StageView

theorem declarations_section (v : StageView) (t : Thread) :
    declarationsOf (v.contribution t).body = v.declarations t := by
  unfold declarationsOf contribution declarations
  cases t with
  | unpack =>
    by_cases hi : v.index = 0 <;>
      simp [unpackSection, bufferDeclaration, hi, Stmt.declaration, quiet_declaration.perTile]
  | math =>
    simp [mathSection, Stmt.declaration, quiet_declaration.arithmetic, List.flatMap_map,
      quiet_declaration.nonlinear]
  | pack =>
    cases ha : v.stage.spec.arithmetic <;> by_cases hl : v.isLast = true <;>
      simp [packSection, bufferDeclaration, ha, hl, Stmt.declaration]

/-- All threads go through the same batches, once. -/
theorem shapes_section (v : StageView) (t : Thread) :
    shapesOf (v.contribution t).body = [v.batches] := by
  unfold shapesOf contribution
  cases t with
  | unpack =>
    by_cases hi : v.index = 0 <;>
      simp [unpackSection, bufferDeclaration, hi, Stmt.shape, quiet_shape.perTile]
  | math =>
    simp [mathSection, Stmt.shape, quiet_shape.arithmetic, List.flatMap_map, quiet_shape.nonlinear]
  | pack =>
    cases ha : v.stage.spec.arithmetic <;> by_cases hl : v.isLast = true <;>
      simp [packSection, bufferDeclaration, ha, hl, Stmt.shape]

end StageView

/-! ## Calls -/

namespace StageView

/-- What the unpackers are configured with. -/
def unpackSetup (v : StageView) : UnpackSetup :=
  ⟨v.index, v.stage.wideDest, v.stage.formats.loadA.source.tileWords,
    v.stage.formats.loadB.source.tileWords⟩

theorem calls_unpack (v : StageView) :
    callsOf (v.contribution .unpack).body =
      (if v.index = 0 then .unpackConfigure v.unpackSetup else .unpackReconfigure v.unpackSetup) ::
        ((if v.index = 0 then [] else [.waitForPack]) ++
          v.unpacking.init :: v.unpacking.perTile.calls) := by
  by_cases hi : v.index = 0 <;>
    simp [contribution, unpackSection, bufferDeclaration, hi, unpackSetup]

theorem calls_math (v : StageView) :
    callsOf (v.contribution .math).body =
      (if v.index = 0 then .mathConfigure v.index v.stage.wideDest
        else .mathReconfigure v.index v.stage.wideDest) ::
      .mathSyncInit v.index v.stage.wideDest :: .waitForDest v.index ::
        (callsOf v.arithmeticSection.body ++
          (v.stage.spec.nonlinear.flatMap fun unit => callsOf (v.nonlinearSection unit).body) ++
          [.destSectionDone v.index v.stage.wideDest]) := by
  simp [contribution, mathSection, List.flatMap_map]

/-- The section of the pack thread around its loop over the batches. -/
theorem exists_packLoop (v : StageView) :
    ∃ front loop back, (v.contribution .pack).body = front ++ .batched v.batches loop :: back ∧
      callsOf front =
        (if v.index = 0
          then .packConfigure v.index v.stage.wideDest v.tilize
            v.stage.formats.storeTarget.tileWords
          else .packReconfigure v.index v.stage.wideDest
            v.stage.formats.storeTarget.tileWords) ::
        .packInit v.index v.settings.destSync v.stage.wideDest v.tilize ::
          (maskedDims v.stage.spec.arithmetic).map .packMaskConfigure ∧
      callsOf loop =
        [.packWaitForMath, .pack v.index v.settings.destSync v.stage.wideDest,
          .packSectionDone v.settings.destSync v.stage.wideDest] ∧
      callsOf back =
        (maskedDims v.stage.spec.arithmetic).map (fun _ => .packMaskClear) ++
          if v.isLast = true then [] else [.signalUnpack] := by
  unfold contribution packSection
  cases v.stage.spec.arithmetic with
  | reduce dim pool =>
    simp only [List.cons_append, List.nil_append]
    refine ⟨_ :: _ :: _ :: _ :: _ :: _ :: [_], _, _, rfl, rfl, rfl, ?_⟩
    by_cases hl : v.isLast = true <;> simp [maskedDims, hl]
  | _ =>
    simp only [List.cons_append, List.nil_append]
    refine ⟨_ :: _ :: _ :: _ :: _ :: [_], _, _, rfl, rfl, rfl, ?_⟩
    by_cases hl : v.isLast = true <;> simp [maskedDims, hl]

section Forall

variable {v : StageView} {P : Call → Prop}

/-- What holds of all calls in the unpack thread, call by call. -/
theorem forall_unpack (hfirst : P (.unpackConfigure v.unpackSetup))
    (hlater : P (.unpackReconfigure v.unpackSetup)) (hwait : P .waitForPack)
    (hinit : P v.unpacking.init) (htile : ∀ call ∈ v.unpacking.perTile.calls, P call) :
    ∀ call ∈ callsOf (v.contribution .unpack).body, P call := by
  rw [calls_unpack, List.forall_mem_cons, List.forall_mem_append, List.forall_mem_cons]
  refine ⟨?_, ?_, hinit, htile⟩
  · split
    next => exact hfirst
    next => exact hlater
  · split
    next => simp
    next => simpa using hwait

theorem forall_math (hfirst : P (.mathConfigure v.index v.stage.wideDest))
    (hlater : P (.mathReconfigure v.index v.stage.wideDest))
    (hsync : P (.mathSyncInit v.index v.stage.wideDest)) (hclaim : P (.waitForDest v.index))
    (harith : ∀ call ∈ callsOf v.arithmeticSection.body, P call)
    (hnonlinear : ∀ unit ∈ v.stage.spec.nonlinear,
      ∀ call ∈ callsOf (v.nonlinearSection unit).body, P call)
    (hfill : P (.destSectionDone v.index v.stage.wideDest)) :
    ∀ call ∈ callsOf (v.contribution .math).body, P call := by
  rw [calls_math]
  simp only [List.forall_mem_cons, List.forall_mem_append, List.mem_flatMap]
  refine ⟨?_, hsync, hclaim, ⟨harith, ?_⟩, hfill, by simp⟩
  · split
    next => exact hfirst
    next => exact hlater
  · intro call hcall
    obtain ⟨unit, hunit, hcall⟩ := hcall
    exact hnonlinear unit hunit call hcall

theorem forall_pack
    (hfirst : v.index = 0 → P (.packConfigure v.index v.stage.wideDest v.tilize
      v.stage.formats.storeTarget.tileWords))
    (hlater : v.index ≠ 0 →
      P (.packReconfigure v.index v.stage.wideDest v.stage.formats.storeTarget.tileWords))
    (hinit : P (.packInit v.index v.settings.destSync v.stage.wideDest v.tilize))
    (hmask : ∀ dim ∈ maskedDims v.stage.spec.arithmetic, P (.packMaskConfigure dim))
    (hwait : P .packWaitForMath) (hpack : P (.pack v.index v.settings.destSync v.stage.wideDest))
    (hrelease : P (.packSectionDone v.settings.destSync v.stage.wideDest))
    (hclear : P .packMaskClear) (hreport : P .signalUnpack) :
    ∀ call ∈ callsOf (v.contribution .pack).body, P call := by
  obtain ⟨front, loop, back, hbody, hfront, hloop, hback⟩ := v.exists_packLoop
  rw [hbody, callsOf_append, callsOf, Stmt.calls, hfront, hloop, hback]
  simp only [List.forall_mem_cons, List.forall_mem_append, List.forall_mem_map]
  refine ⟨⟨?_, hinit, hmask⟩, ⟨hwait, hpack, hrelease, by simp⟩, fun _ _ => hclear, ?_⟩
  · split
    next hindex => exact hfirst hindex
    next hindex => exact hlater hindex
  · split
    next => simp
    next => simpa using hreport

end Forall

end StageView

/-- The text of a thread: what its stages write, one after the other. -/
theorem Pipeline.body_thread (p : Pipeline) (t : Thread) :
    (p.lower.thread t).body = p.views.flatMap fun v => (v.contribution t).body := by
  cases t <;> simp only [lower, Program.thread, ThreadProgram.ofSections, List.flatMap_map, views] <;>
    rfl

end TileFusion
