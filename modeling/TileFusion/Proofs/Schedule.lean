import TileFusion.Build.Check
import TileFusion.Proofs.Device

/-!
# A schedule for a whole pipeline

The calls of a stage on the three threads, written out as lists, and one way to make them all: the
stages one after the other, within a stage the batches, and within a batch the tiles, each loaded
and computed at once. Two facts about the lowering carry it:

> loads and computations of a stage are made in the same turns of the same loops, since both wrap
> their one call in the same `tileBody`;
> every stage behind the first waits for exactly one output, and every stage in front of the last
> reports exactly one.
-/

namespace TileFusion

/-- The stage whose input a call loads. -/
def Call.load? : Call → Option Nat
  | .unpackPair s .. | .unpackSingle s .. | .unpackReduce s .. | .unpackMatmul s ..
  | .unpackTilize s .. => some s
  | _ => none

/-- The stage whose output a call writes. -/
def Call.pack? : Call → Option Nat
  | .pack s .. => some s
  | _ => none

/-- The stage whose section of the accumulator a call hands on. -/
def Call.fill? : Call → Option Nat
  | .destSectionDone s _ => some s
  | _ => none

theorem effect_of_load? {call : Call} {s : Nat} (h : call.load? = some s) :
    call.effect = .load := by
  cases call <;> simp [Call.load?] at h <;> rfl

theorem effect_of_fill? {call : Call} {s : Nat} (h : call.fill? = some s) :
    call.effect = .fill := by
  cases call <;> simp [Call.fill?] at h
  rfl

theorem fill?_eq_none {call : Call} (h : call.effect ≠ .fill) : call.fill? = none := by
  cases hs : call.fill? with
  | none => rfl
  | some s => exact absurd (effect_of_fill? hs) h

theorem load?_eq_none {call : Call} (h : call.effect ≠ .load) : call.load? = none := by
  cases hs : call.load? with
  | none => rfl
  | some s => exact absurd (effect_of_load? hs) h

namespace StageView

/-- The loader delivers what the arithmetic unit takes. -/
def Fed (v : StageView) : Prop :=
  feeds v.loader.kind v.stage.spec.arithmetic = true

/-- The statement that makes a call for one tile: once, or at every step along the inner dimension
of a matrix product. -/
def tileBody (v : StageView) (call : Call) : Stmt :=
  match v.stage.spec.arithmetic with
  | .matmul => .loop "kt" v.stage.innerTiles [.call call]
  | _ => .call call

/-- The turns in which a tile is worked on. -/
def innerTurns (v : StageView) (turn : Turn) : List Turn :=
  match v.stage.spec.arithmetic with
  | .matmul => (List.range v.stage.innerTiles).map (turn.set "kt")
  | _ => [turn]

theorem unroll_tileBody (v : StageView) (call : Call) (scope : TileScope) (turn : Turn) :
    (v.tileBody call).unroll scope turn = (v.innerTurns turn).map (Event.mk call) := by
  unfold tileBody innerTurns
  cases v.stage.spec.arithmetic with
  | matmul =>
    rw [List.map_map, List.map_eq_flatMap]
    simp
  | _ => rfl

/-- The batches of the stage, each with its tiles and its turn. -/
def batchTurns (v : StageView) : List (TileScope × Turn) :=
  v.batches.turns .start

/-- The turns in which the tiles of a batch are worked on. -/
def workTurns (v : StageView) (x : TileScope × Turn) : List Turn :=
  (x.1.turns x.2).flatMap v.innerTurns

/-! ## The calls of a stage -/

/-- The calls of a stage in the unpack thread. -/
def unpackEvents (v : StageView) : List Event :=
  unrollAll .single .start v.unpackSection.body

/-- The calls of a stage in the math thread. -/
def mathEvents (v : StageView) : List Event :=
  unrollAll .single .start v.mathSection.body

/-- The calls of a stage in the pack thread. -/
def packEvents (v : StageView) : List Event :=
  unrollAll .single .start v.packSection.body

/-- One call brings a tile in, and it stands in the body of a tile. -/
theorem exists_load {v : StageView} (h : v.Fed) :
    (v.unpacking.init.effect = .silent ∧ v.unpacking.init.pack? = none) ∧
      ∃ load : Call, v.unpacking.perTile = v.tileBody load ∧ load.effect = .load ∧
        load.load? = some v.index := by
  unfold Fed at h
  unfold unpacking tileBody
  cases hk : v.loader.kind <;> cases ha : v.stage.spec.arithmetic <;>
    simp only [hk, ha, feeds, Bool.false_eq_true] at h ⊢
  -- what is left are the pairs that go together; a direct or spreading loader has two forms
  case reduce.reduce | matmul.matmul | tilize.datacopy => exact ⟨⟨rfl, rfl⟩, _, rfl, rfl, rfl⟩
  all_goals
    by_cases hf : (v.loader.fresh.length == 2) = true <;> simp only [hf, Bool.false_eq_true] <;>
      exact ⟨⟨rfl, rfl⟩, _, rfl, rfl, rfl⟩

/-- One call computes a tile, and it stands in the same body. -/
theorem exists_compute (v : StageView) :
    ∃ (remark : String) (init compute : Call) (cleanUp : List Call),
      v.arithmeticSection.body =
        .comment remark :: .call init :: .forEachTile [v.tileBody compute] ::
          cleanUp.map Stmt.call ∧
      init.effect = .silent ∧ compute.effect = .compute ∧
      (v.stage.spec.arithmetic = .matmul → compute = .matmul v.stage.spec.effectiveFidelity) ∧
      ∀ call ∈ cleanUp, call.effect = .silent := by
  unfold arithmeticSection tileBody
  cases ha : v.stage.spec.arithmetic with
  | eltwise op =>
    simp only [ha]
    refine ⟨_, _, _, [.eltwiseUninit], rfl, ?_, ?_, ?_, ?_⟩ <;> simp [Call.effect]
  | reduce dim pool =>
    simp only [ha]
    refine ⟨_, _, _, [.reduceUninit _], rfl, ?_, ?_, ?_, ?_⟩ <;> simp [Call.effect]
  | matmul =>
    simp only [ha]
    refine ⟨_, _, _, [], rfl, ?_, ?_, ?_, ?_⟩ <;> simp [Call.effect]
  | datacopy =>
    simp only [ha]
    refine ⟨_, _, _, [.datacopyUninit _], rfl, ?_, ?_, ?_, ?_⟩ <;> simp [Call.effect]

theorem effect_nonlinear (v : StageView) (unit : Nonlinear) :
    ∀ call ∈ callsOf (v.nonlinearSection unit).body, call.effect = .silent := by
  unfold nonlinearSection
  cases unit <;> simp [Call.effect]

/-- The unpack thread: a configuration, a wait behind the first stage, and then in every batch a
preparation and the loads. -/
theorem unpackEvents_eq {v : StageView} {load : Call} (h : v.unpacking.perTile = v.tileBody load) :
    ∃ config : Call, config.effect = .silent ∧ config.pack? = none ∧
      v.unpackEvents = ⟨config, .start⟩ ::
        ((if v.index = 0 then [] else [⟨.waitForPack, .start⟩]) ++
          v.batchTurns.flatMap fun x =>
            ⟨v.unpacking.init, x.2⟩ :: (v.workTurns x).map (Event.mk load)) := by
  let setup : UnpackSetup := ⟨v.index, v.stage.wideDest, v.stage.formats.loadA.source.tileWords,
    v.stage.formats.loadB.source.tileWords⟩
  refine ⟨if v.index = 0 then .unpackConfigure setup else .unpackReconfigure setup, ?_, ?_, ?_⟩
  · split <;> rfl
  · split <;> rfl
  · unfold unpackEvents unpackSection batchTurns workTurns
    by_cases hi : v.index = 0 <;>
      simp [bufferDeclaration, h, unroll_tileBody, hi, List.map_flatMap, setup]

/-- The math thread: two calls of configuration, and in every batch a section that is claimed,
computed in the turns of the loads, and handed on for the stage. -/
theorem mathEvents_eq (v : StageView) :
    ∃ (configs : List Event) (compute claim fill : Call)
      (before behind : TileScope × Turn → List Event),
      (∀ e ∈ configs, e.call.effect = .silent) ∧ compute.effect = .compute ∧
      (v.stage.spec.arithmetic = .matmul → compute = .matmul v.stage.spec.effectiveFidelity) ∧
      claim.effect = .claim ∧ fill.fill? = some v.index ∧
      (∀ x, ∀ e ∈ before x, e.call.effect = .silent) ∧
      (∀ x, ∀ e ∈ behind x, e.call.effect = .silent) ∧
      v.mathEvents = configs ++ v.batchTurns.flatMap fun x =>
        ⟨claim, x.2⟩ :: (before x ++ (v.workTurns x).map (Event.mk compute) ++ behind x ++
          [⟨fill, x.2⟩]) := by
  obtain ⟨remark, init, compute, cleanUp, hbody, hinit, hcompute, hproduct, hclean⟩ :=
    v.exists_compute
  refine ⟨[⟨if v.index = 0 then .mathConfigure v.index v.stage.wideDest
      else .mathReconfigure v.index v.stage.wideDest, .start⟩,
      ⟨.mathSyncInit v.index v.stage.wideDest, .start⟩], compute, .waitForDest v.index,
    .destSectionDone v.index v.stage.wideDest, fun x => [⟨init, x.2⟩],
    fun x => (cleanUp.map fun call => ⟨call, x.2⟩) ++ unrollAll x.1 x.2
      ((v.stage.spec.nonlinear.map v.nonlinearSection).flatMap (·.body)),
    ?_, hcompute, hproduct, rfl, rfl, ?_, ?_, ?_⟩
  · by_cases hi : v.index = 0 <;> simp [hi, Call.effect]
  · simp [hinit]
  · intro x e he
    rcases List.mem_append.mp he with he | he
    · obtain ⟨call, hmem, rfl⟩ := List.mem_map.mp he
      exact hclean call hmem
    · rw [unrollAll_flatMap, List.mem_flatMap] at he
      obtain ⟨_, hunit, he⟩ := he
      obtain ⟨unit, -, rfl⟩ := List.mem_map.mp hunit
      exact v.effect_nonlinear unit _ (call_mem_of_mem_unrollAll _ he)
  · unfold mathEvents mathSection batchTurns workTurns
    simp [hbody, unroll_tileBody, List.map_flatMap]

/-- The dimensions that the packer masks. -/
def maskedDims : Arithmetic → List ReduceDim
  | .reduce dim _ => [dim]
  | _ => []

/-- The pack thread: configuration, in every batch a section that is awaited, written and freed,
and at the end a report, unless the stage is the last one. -/
theorem packEvents_eq (v : StageView) :
    ∃ (configs masks : List Event) (pack release : Call),
      (∀ e ∈ configs, e.call.effect = .silent ∧ e.call.pack? = none) ∧
      (∀ e ∈ masks, e.call.effect = .silent ∧ e.call.pack? = none) ∧
      pack.effect = .silent ∧ pack.pack? = some v.index ∧
      release.effect = .release ∧ release.pack? = none ∧
      v.packEvents = configs ++
        (v.batchTurns.flatMap fun x => ⟨.packWaitForMath, x.2⟩ ::
          ((x.1.turns x.2).map (Event.mk pack) ++ [⟨release, x.2⟩])) ++
        masks ++ (if v.isLast = true then [] else [⟨.signalUnpack, .start⟩]) := by
  let dims := maskedDims v.stage.spec.arithmetic
  let config : Call := if v.index = 0
    then .packConfigure v.index v.stage.wideDest v.tilize v.stage.formats.storeTarget.tileWords
    else .packReconfigure v.index v.stage.wideDest v.stage.formats.storeTarget.tileWords
  have hconfig : config.effect = .silent ∧ config.pack? = none := by
    by_cases hi : v.index = 0 <;> simp [config, hi, Call.effect, Call.pack?]
  refine ⟨⟨config, .start⟩ ::
      ⟨.packInit v.index v.settings.destSync v.stage.wideDest v.tilize, .start⟩ ::
      dims.map fun dim => ⟨.packMaskConfigure dim, .start⟩,
    dims.map fun _ => ⟨.packMaskClear, .start⟩,
    .pack v.index v.settings.destSync v.stage.wideDest,
    .packSectionDone v.settings.destSync v.stage.wideDest, ?_, ?_, rfl, rfl, rfl, rfl, ?_⟩
  · refine List.forall_mem_cons.mpr ⟨hconfig, ?_⟩
    simp [Call.effect, Call.pack?]
  · simp [Call.effect, Call.pack?]
  · unfold packEvents packSection batchTurns
    cases ha : v.stage.spec.arithmetic <;> by_cases hl : v.isLast = true <;>
      simp [bufferDeclaration, config, dims, maskedDims, ha, hl, List.map_eq_flatMap]

end StageView

/-! ## The schedule -/

theorem effect_map {call : Call} {effect : Effect} (h : call.effect = effect) (turns : List Turn) :
    ∀ e ∈ turns.map (Event.mk call), e.call.effect = effect := by
  simp [h]

/-- Sections of the accumulator. -/
def DestSync.sections : DestSync → Nat
  | .half => 2
  | .full => 1

/-- The device between two stages: all sections are free, the queue is empty, and `packDone` outputs
were reported and not waited for. -/
def Shared.between (packDone sections : Nat) : Shared :=
  ⟨packDone, sections, 0, 0, []⟩

section Schedule

variable {capacity sections : Nat} (hc : 1 ≤ capacity) (hs : 1 ≤ sections)
include hc hs

/-- A stage runs from one state between stages to the next. -/
theorem segment_stage {v : StageView} (h : v.Fed) :
    Segment capacity v.unpackEvents v.mathEvents v.packEvents
      (.between (if v.index = 0 then 0 else 1) sections)
      (.between (if v.isLast = true then 0 else 1) sections) := by
  obtain ⟨⟨hinit, -⟩, load, hload, hloadEffect, -⟩ := StageView.exists_load h
  obtain ⟨config, hconfig, -, hunpack⟩ := StageView.unpackEvents_eq hload
  obtain ⟨configs, compute, claim, fill, before, behind, hconfigs, hcompute, -, hclaim, hfill,
    hbefore, hbehind, hmath⟩ := v.mathEvents_eq
  obtain ⟨packConfigs, masks, pack, release, hpackConfigs, hmasks, hpackEffect, -, hrelease, -,
    hpack⟩ := v.packEvents_eq
  have hnone : ∀ e ∈ ([] : List Event), e.call.effect = .silent := by simp
  have hstart : Segment capacity [⟨config, .start⟩] configs packConfigs
      (.between (if v.index = 0 then 0 else 1) sections)
      (.between (if v.index = 0 then 0 else 1) sections) :=
    .silent (by simpa using hconfig) hconfigs fun e he => (hpackConfigs e he).1
  have hwait : Segment capacity (if v.index = 0 then [] else [⟨.waitForPack, .start⟩]) [] []
      (.between (if v.index = 0 then 0 else 1) sections) (.between 0 sections) := by
    by_cases hi : v.index = 0
    · simpa [hi] using Segment.nil _
    · rw [if_neg hi, if_neg hi]
      exact Segment.unpack (s := .between 1 sections) (e := ⟨.waitForPack, .start⟩) rfl
  have hbatch : ∀ x ∈ v.batchTurns, Segment capacity
      ([⟨v.unpacking.init, x.2⟩] ++ (v.workTurns x).map (Event.mk load))
      (⟨claim, x.2⟩ :: (before x ++ (v.workTurns x).map (Event.mk compute) ++ behind x ++
        [⟨fill, x.2⟩]))
      (⟨.packWaitForMath, x.2⟩ :: ((x.1.turns x.2).map (Event.mk pack) ++ [⟨release, x.2⟩]))
      (.between 0 sections) (.between 0 sections) := by
    intro x _
    -- there are as many loads as computations, since both are made in the same turns
    refine Segment.batch hc rfl ?_ (Int.le_refl 0) hclaim (effect_of_fill? hfill) rfl hrelease
      (by simp) (effect_map hloadEffect _) (effect_map hcompute _) (by simpa using hinit)
      (hbefore x) (hbehind x) (effect_map hpackEffect _)
    show (0 : Int) < sections
    omega
  have hbatches := Segment.flatMap hbatch
  have hmask : Segment capacity [] [] masks (.between 0 sections) (.between 0 sections) :=
    .silent hnone hnone fun e he => (hmasks e he).1
  have hsignal : Segment capacity [] [] (if v.isLast = true then [] else [⟨.signalUnpack, .start⟩])
      (.between 0 sections) (.between (if v.isLast = true then 0 else 1) sections) := by
    by_cases hl : v.isLast = true
    · simpa [hl] using Segment.nil _
    · rw [if_neg hl, if_neg hl]
      exact Segment.pack (s := .between 0 sections) (e := ⟨.signalUnpack, .start⟩) rfl
  rw [hunpack, hmath, hpack]
  simpa using (((hstart.append hwait).append hbatches).append hmask).append hsignal

/-- Outputs that were reported and not waited for between the stages `i - 1` and `i` of `n`. -/
def outputsBetween (n i : Nat) : Nat :=
  if i = 0 ∨ i = n then 0 else 1

/-- The stages from `first` on, one after the other. -/
theorem segment_stages {n : Nat} {views : List StageView} :
    ∀ {first : Nat}, views.map (·.index) = List.range' first views.length →
      n = first + views.length → (∀ v ∈ views, v.Fed) →
      (∀ v ∈ views, v.isLast = true ↔ v.index + 1 = n) →
      Segment capacity (views.flatMap (·.unpackEvents)) (views.flatMap (·.mathEvents))
        (views.flatMap (·.packEvents)) (.between (outputsBetween n first) sections)
        (.between 0 sections) := by
  induction views with
  | nil =>
    intro first _ hn _ _
    have hbound : outputsBetween n first = 0 := by
      rw [outputsBetween, if_pos (.inr (by simpa using hn.symm))]
    rw [hbound]
    exact Segment.nil _
  | cons v views ih =>
    intro first hindex hn hfed hlast
    obtain ⟨hv, hrest⟩ :
        v.index = first ∧ views.map (·.index) = List.range' (first + 1) views.length := by
      simpa [List.range'_succ] using hindex
    rw [List.length_cons] at hn
    have hfront : (if v.index = 0 then 0 else 1) = outputsBetween n first :=
      if_congr (by omega) rfl rfl
    have hback : (if v.isLast = true then 0 else 1) = outputsBetween n (first + 1) :=
      if_congr (by rw [hlast v (List.mem_cons_self ..)]; omega) rfl rfl
    have hstage := segment_stage hc hs (hfed v (List.mem_cons_self ..))
    rw [hfront, hback] at hstage
    simp only [List.flatMap_cons]
    exact hstage.append (ih hrest (by omega) (fun w hw => hfed w (List.mem_cons_of_mem _ hw))
      fun w hw => hlast w (List.mem_cons_of_mem _ hw))

end Schedule

end TileFusion
