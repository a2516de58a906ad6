import TileFusion.Proofs.Sections
import TileFusion.Proofs.TileOrder

/-!
# What the threads of a stage agree on

Each thread is written by itself: the unpack thread follows the loader, the math thread the
arithmetic unit, and the pack thread only asks whether the stage reduces. Width of the accumulator,
extent of a handoff, batches, reuse and the parameters of a reduction appear in two or three of
them, and the kernel works only if they appear with the same values. That they do is owed to the
combinations of units that a build refuses.

> `threads_agree`: in a built pipeline the threads of every stage agree on all of these, and load
> and compute every tile in the same number of calls.
-/

namespace TileFusion

/-! ## Shared arguments -/

/-- The width of the accumulator among the arguments of a call. -/
def Call.wideDest? : Call → Option Bool
  | .unpackConfigure setup | .unpackReconfigure setup => some setup.wideDest
  | .mathConfigure _ wide | .mathReconfigure _ wide | .mathSyncInit _ wide
  | .destSectionDone _ wide | .eltwise _ _ _ wide _ _ | .datacopyInit _ _ wide _ _
  | .datacopy _ _ wide _ _ | .unary _ _ _ wide _ _ | .packConfigure _ wide _ _
  | .packReconfigure _ wide _ | .packInit _ _ wide _ | .pack _ _ wide
  | .packSectionDone _ wide => some wide
  | .reduceInit setup | .reduce setup => some setup.wideDest
  | _ => none

/-- The extent of a handoff among the arguments of a call. -/
def Call.sync? : Call → Option DestSync
  | .packInit _ sync _ _ | .pack _ sync _ | .packSectionDone sync _ => some sync
  | _ => none

/-- The reuse that a call is asked for. -/
def Call.reuse? : Call → Option Reuse
  | .unpackSingleInit _ reuse _ _ _ | .unpackSingle _ reuse _ | .eltwiseInit _ _ _ reuse
  | .eltwise _ _ _ _ _ reuse => some reuse
  | _ => none

/-- What a reducing call computes. -/
def Call.pool? : Call → Option Pool
  | .unpackReduceInit pool _ | .unpackReduce _ pool _ => some pool
  | .reduceInit setup | .reduce setup => some setup.pool
  | _ => none

/-- Along which dimension a reducing call works. -/
def Call.dim? : Call → Option ReduceDim
  | .unpackReduceInit _ dim | .unpackReduce _ _ dim | .packMaskConfigure dim => some dim
  | .reduceInit setup | .reduce setup => some setup.dim
  | _ => none

/-- What a call does to the mask of the packer: it sets a dimension, or clears the mask. -/
def Call.mask? : Call → Option (Option ReduceDim)
  | .packMaskConfigure dim => some (some dim)
  | .packMaskClear => some none
  | _ => none

/-- The extent of a handoff that is declared. -/
def Declaration.sync? : Declaration → Option DestSync
  | .destSync _ sync => some sync
  | _ => none

/-- What a reduction computes. -/
def Arithmetic.pool? : Arithmetic → Option Pool
  | .reduce _ pool => some pool
  | _ => none

/-- Along which dimension a reduction works. -/
def Arithmetic.dim? : Arithmetic → Option ReduceDim
  | .reduce dim _ => some dim
  | _ => none

/-- The arguments of a call are those of the stage: where it takes one, it is the stage's, and the
calls that bring in or compute a tile take all that the stage has. -/
structure StageView.Suits (v : StageView) (call : Call) : Prop where
  wide : ∀ wide, call.wideDest? = some wide → wide = v.stage.wideDest
  sync : ∀ sync, call.sync? = some sync → sync = v.settings.destSync
  reuse : ∀ reuse, call.reuse? = some reuse → reuse = v.reuse
  pool : ∀ pool, call.pool? = some pool → v.stage.spec.arithmetic.pool? = some pool
  dim : ∀ dim, call.dim? = some dim → v.stage.spec.arithmetic.dim? = some dim
  working : call.effect = .load ∨ call.effect = .compute →
    call.reuse?.getD .none = v.reuse ∧ call.pool? = v.stage.spec.arithmetic.pool? ∧
      call.dim? = v.stage.spec.arithmetic.dim?

attribute [simp] Call.wideDest? Call.sync? Call.reuse? Call.pool? Call.dim? Call.effect

namespace StageView

variable {v : StageView}

/-! ## Units that go together -/

/-- A reducing loader feeds a reduction, so its parameters are never made up. -/
theorem reduceParameters_of_kind (hc : Combination v.settings.platform v.stage.spec)
    (hk : v.loader.kind = .reduce) : ∃ dim pool, v.stage.spec.arithmetic = .reduce dim pool ∧
      reduceParameters v.stage.spec.arithmetic = (pool, dim) := by
  have hfeeds := hc.feeds
  rw [show v.stage.spec.loader.kind = .reduce from hk] at hfeeds
  cases ha : v.stage.spec.arithmetic with
  | reduce dim pool => exact ⟨dim, pool, rfl, rfl⟩
  | _ => simp [ha, feeds] at hfeeds

/-- Only a reducing loader feeds a reduction. -/
theorem kind_of_reduce (hc : Combination v.settings.platform v.stage.spec) {dim : ReduceDim}
    {pool : Pool} (ha : v.stage.spec.arithmetic = .reduce dim pool) : v.loader.kind = .reduce := by
  have hfeeds := hc.feeds
  rw [ha] at hfeeds
  unfold loader
  cases hk : v.stage.spec.loader.kind with
  | reduce => rfl
  | _ => simp [hk, feeds] at hfeeds

theorem pool?_eq_none (hc : Combination v.settings.platform v.stage.spec)
    (hk : v.loader.kind ≠ .reduce) :
    v.stage.spec.arithmetic.pool? = none ∧ v.stage.spec.arithmetic.dim? = none := by
  cases ha : v.stage.spec.arithmetic with
  | reduce dim pool => exact absurd (kind_of_reduce hc ha) hk
  | _ => exact ⟨rfl, rfl⟩

/-- A stage that reads the accumulator brings in at most one operand itself. -/
theorem reuse_eq_none (hc : Combination v.settings.platform v.stage.spec)
    (h : v.loader.fresh.length = 2 ∨ v.loader.kind ≠ .direct) : v.reuse = .none := by
  unfold reuse
  cases ha : v.stage.spec.arithmetic with
  | eltwise op =>
    by_contra hne
    obtain ⟨hkind, -⟩ := hc.reuse hne
    obtain hlen | hk := h
    · have hcount := hc.count
      rw [show v.stage.spec.loader.fresh.length = 2 from hlen] at hcount
      cases hr : v.stage.spec.loader.reuse <;> simp [freshWanted, ha, hr] at hcount
      exact hne hr
    · exact hk hkind
  | _ => rfl

theorem maskedDims_eq (arithmetic : Arithmetic) : maskedDims arithmetic = arithmetic.dim?.toList := by
  cases arithmetic <;> rfl

/-! ## Call by call -/

theorem suits_unpacking (hc : Combination v.settings.platform v.stage.spec) :
    v.Suits v.unpacking.init ∧ ∀ call ∈ v.unpacking.perTile.calls, v.Suits call := by
  obtain ⟨hk, hinit, hstmt⟩ | ⟨hk, pool, dim, hparams, hinit, hstmt⟩ | ⟨hk, hinit, hstmt⟩ |
    ⟨hk, hlen, hinit, hstmt⟩ | ⟨hk, -, hinit, hstmt⟩ := v.unpacking_cases <;>
    simp only [hinit, hstmt, Stmt.calls, callsOf, List.append_nil, List.forall_mem_singleton]
  · obtain ⟨hpool, hdim⟩ := pool?_eq_none hc (by simp [hk])
    have hreuse := reuse_eq_none hc (.inr (by simp [hk]))
    refine ⟨?_, ?_⟩ <;> constructor <;> simp [hpool, hdim, hreuse]
  · obtain ⟨dim', pool', ha, hparams'⟩ := reduceParameters_of_kind hc hk
    obtain ⟨rfl, rfl⟩ := Prod.mk.inj (hparams.symm.trans hparams')
    have hreuse := reuse_eq_none hc (.inr (by simp [hk]))
    refine ⟨?_, ?_⟩ <;> constructor <;> simp [ha, Arithmetic.pool?, Arithmetic.dim?, hreuse]
  · obtain ⟨hpool, hdim⟩ := pool?_eq_none hc (by simp [hk])
    have hreuse := reuse_eq_none hc (.inr (by simp [hk]))
    refine ⟨?_, ?_⟩ <;> constructor <;> simp [hpool, hdim, hreuse]
  · -- two operands come from memory, so none comes from the accumulator
    have hne : v.loader.kind ≠ .reduce := by
      obtain hk | ⟨s, hk⟩ := hk <;> simp [hk]
    obtain ⟨hpool, hdim⟩ := pool?_eq_none hc hne
    have hreuse := reuse_eq_none hc (.inl hlen)
    refine ⟨?_, ?_⟩ <;> constructor <;> simp [hpool, hdim, hreuse]
  · have hne : v.loader.kind ≠ .reduce := by
      obtain hk | ⟨s, hk⟩ := hk <;> simp [hk]
    obtain ⟨hpool, hdim⟩ := pool?_eq_none hc hne
    refine ⟨?_, ?_⟩ <;> constructor <;> simp [hpool, hdim]

theorem suits_arithmetic (v : StageView) :
    ∀ call ∈ callsOf v.arithmeticSection.body, v.Suits call := by
  unfold arithmeticSection
  cases ha : v.stage.spec.arithmetic with
  | matmul =>
    simp only [ha, callsOf, Stmt.calls, List.nil_append, List.cons_append, List.forall_mem_cons]
    refine ⟨?_, ?_, by simp⟩ <;> constructor <;> simp [ha, reuse, Arithmetic.pool?, Arithmetic.dim?]
  | eltwise _ | reduce _ _ | datacopy =>
    simp only [ha, callsOf, Stmt.calls, List.nil_append, List.cons_append, List.forall_mem_cons]
    refine ⟨?_, ?_, ?_, by simp⟩ <;> constructor <;>
      simp [ha, reuse, Arithmetic.pool?, Arithmetic.dim?]

theorem suits_nonlinear (v : StageView) (unit : Nonlinear) :
    ∀ call ∈ callsOf (v.nonlinearSection unit).body, v.Suits call := by
  unfold nonlinearSection
  cases unit <;> simp only [callsOf, Stmt.calls, List.nil_append, List.cons_append,
    List.forall_mem_cons] <;> refine ⟨?_, ?_, ?_, ?_, by simp⟩ <;> constructor <;> simp

/-- Every call of a stage takes the arguments of the stage. -/
theorem suits_contribution (hc : Combination v.settings.platform v.stage.spec) (t : Thread) :
    ∀ call ∈ callsOf (v.contribution t).body, v.Suits call := by
  cases t with
  | unpack =>
    obtain ⟨hinit, htile⟩ := suits_unpacking hc
    refine forall_unpack ?_ ?_ ?_ hinit htile <;> constructor <;> simp [unpackSetup]
  | math =>
    have hunits : ∀ unit ∈ v.stage.spec.nonlinear,
        ∀ call ∈ callsOf (v.nonlinearSection unit).body, v.Suits call :=
      fun unit _ => v.suits_nonlinear unit
    refine forall_math ?_ ?_ ?_ ?_ v.suits_arithmetic hunits ?_ <;> constructor <;> simp
  | pack =>
    have hmask : ∀ dim ∈ maskedDims v.stage.spec.arithmetic, v.Suits (.packMaskConfigure dim) := by
      intro dim hdim
      rw [maskedDims_eq, Option.mem_toList] at hdim
      constructor <;> simp [hdim]
    refine forall_pack (fun _ => ?_) (fun _ => ?_) ?_ hmask ?_ ?_ ?_ ?_ ?_ <;> constructor <;> simp

/-! ## The mask of the packer -/

/-- The mask stands around the loop over the batches, and only where the stage reduces. -/
theorem exists_masks (v : StageView) :
    ∃ front loop back, (v.contribution .pack).body = front ++ .batched v.batches loop :: back ∧
      (callsOf front).filterMap Call.mask? = v.stage.spec.arithmetic.dim?.toList.map some ∧
      (callsOf loop).filterMap Call.mask? = [] ∧
      (callsOf back).filterMap Call.mask? =
        v.stage.spec.arithmetic.dim?.toList.map fun _ => none := by
  obtain ⟨front, loop, back, hbody, hfront, hloop, hback⟩ := v.exists_packLoop
  refine ⟨front, loop, back, hbody, ?_, by rw [hloop]; rfl, ?_⟩
  · rw [hfront, List.filterMap_cons_none (by split <;> rfl), List.filterMap_cons_none rfl,
      List.filterMap_map, ← maskedDims_eq]
    exact congrFun List.filterMap_eq_map _
  · have hreport : (if v.isLast = true then [] else [Call.signalUnpack]).filterMap
        Call.mask? = [] := by
      split <;> rfl
    rw [hback, List.filterMap_append, hreport, List.append_nil, List.filterMap_map, ← maskedDims_eq]
    exact congrFun List.filterMap_eq_map _

end StageView

/-! ## The threads together -/

/-- The threads of a stage agree. -/
structure StageView.Agreed (settings : Settings) (v : StageView) : Prop where
  /-- On the width of the accumulator. -/
  wide : ∀ (t : Thread), ∀ call ∈ callsOf (v.contribution t).body, ∀ wide,
    call.wideDest? = some wide → wide = v.stage.wideDest
  /-- On the extent of a handoff, which the math thread declares once. -/
  declared : (declarationsOf (v.contribution .math).body).filterMap Declaration.sync? =
    [settings.destSync]
  sync : ∀ call ∈ callsOf (v.contribution .pack).body, ∀ sync,
    call.sync? = some sync → sync = settings.destSync
  /-- On the batches, which each thread goes through once. -/
  shapes : ∀ t : Thread, shapesOf (v.contribution t).body = [v.batches]
  /-- On the operand that is taken from the accumulator: for an elementwise stage the one that its
  loader says, for the others none. -/
  reuse : ∀ (t : Thread), ∀ call ∈ callsOf (v.contribution t).body,
    (∀ reuse, call.reuse? = some reuse → reuse = v.reuse) ∧
      (call.effect = .load ∨ call.effect = .compute → call.reuse?.getD .none = v.reuse)
  /-- On what is reduced, and along which dimension. -/
  reduction : ∀ (t : Thread), ∀ call ∈ callsOf (v.contribution t).body,
    (∀ pool, call.pool? = some pool → v.stage.spec.arithmetic.pool? = some pool) ∧
      (∀ dim, call.dim? = some dim → v.stage.spec.arithmetic.dim? = some dim) ∧
      (call.effect = .load ∨ call.effect = .compute →
        call.pool? = v.stage.spec.arithmetic.pool? ∧ call.dim? = v.stage.spec.arithmetic.dim?)
  /-- The loader knows what is reduced, since it reduces exactly where the arithmetic unit does. -/
  reduces : v.loader.kind = .reduce ↔ v.stage.spec.arithmetic.isReduce = true
  /-- The mask of a reduction is set in front of the batches of the packer and cleared behind. -/
  masks : ∃ front loop back,
    (v.contribution .pack).body = front ++ .batched v.batches loop :: back ∧
      (callsOf front).filterMap Call.mask? = v.stage.spec.arithmetic.dim?.toList.map some ∧
      (callsOf loop).filterMap Call.mask? = [] ∧
      (callsOf back).filterMap Call.mask? = v.stage.spec.arithmetic.dim?.toList.map fun _ => none
  /-- On the number of calls that bring a tile in and that compute it. -/
  tiles : ∀ n < v.output.tiles,
    (turnsOf .load (v.events .unpack)).countP (fun turn => turn "tile_idx" = n) = v.tileSteps ∧
      (turnsOf .compute (v.events .math)).countP (fun turn => turn "tile_idx" = n) = v.tileSteps

section Built

variable {r : Registry} {specs : List StageSpec} {settings : Settings} {p : Pipeline}

theorem settings_of_build (hp : (Pipeline.build r specs settings).value = .ok p) :
    ∀ v ∈ p.views, v.settings = settings := by
  obtain ⟨-, stages, final, placed, -, -, rfl⟩ := build_eq_ok_iff.mp hp
  intro v hv
  obtain ⟨s, -, rfl⟩ := List.mem_map.mp hv
  rfl

/-- **The threads of every stage agree on what they share.** -/
theorem threads_agree (hp : (Pipeline.build r specs settings).value = .ok p) :
    (∀ t : Thread, (p.lower.thread t).body = p.views.flatMap fun v => (v.contribution t).body) ∧
      ∀ v ∈ p.views, v.Agreed settings := by
  refine ⟨p.body_thread, ?_⟩
  intro v hv
  have hc := combination_of_build hp v hv
  have hsettings := settings_of_build hp v hv
  have hsuits := StageView.suits_contribution hc
  have hfed := (ordered_of_build hp).fed v hv
  refine
    { wide := fun t call hcall => (hsuits t call hcall).wide
      declared := ?_
      sync := ?_
      shapes := v.shapes_section
      reuse := ?_
      reduction := ?_
      reduces := ?_
      masks := v.exists_masks
      tiles := ?_ }
  · rw [v.declarations_section, ← hsettings]
    rfl
  · intro call hcall
    rw [← hsettings]
    exact (hsuits .pack call hcall).sync
  · intro t call hcall
    have hcall := hsuits t call hcall
    exact ⟨hcall.reuse, fun hwork => (hcall.working hwork).1⟩
  · intro t call hcall
    have hcall := hsuits t call hcall
    exact ⟨hcall.pool, hcall.dim, fun hwork => (hcall.working hwork).2⟩
  · constructor
    · intro hk
      obtain ⟨dim, pool, ha, -⟩ := StageView.reduceParameters_of_kind hc hk
      rw [ha]
      rfl
    · intro hreduce
      cases ha : v.stage.spec.arithmetic with
      | reduce dim pool => exact StageView.kind_of_reduce hc ha
      | _ => simp [ha, Arithmetic.isReduce] at hreduce
  · intro n hn
    refine ⟨?_, ?_⟩
    · rw [show v.events .unpack = v.unpackEvents from rfl, StageView.turnsOf_load hfed]
      exact v.countP_work hn
    · rw [show v.events .math = v.mathEvents from rfl, v.turnsOf_compute]
      exact v.countP_work hn

end Built

/-- The largest number of each row, multiplied out of the accumulator. -/
def reducedSpecs : List StageSpec :=
  { loader := ⟨.reduce, "a", some "b", .none, false, false⟩
    arithmetic := .reduce .row .max
    nonlinear := []
    output := "sum"
    outputFormat := .float16b
    fidelity := .lofi
    unpackToDest := false } :: fusedSpecs.tail

/-- The threads of a reduction agree on what it computes. -/
theorem threads_agree_reduced :
    ∃ p, (Pipeline.build (columnRegistry ⟨⟨64, 64⟩, .float16b, 4, 8192⟩) reducedSpecs
        fusedSettings).value = .ok p ∧
      ∃ v ∈ p.views, v.stage.spec.arithmetic = .reduce .row .max ∧ v.Agreed fusedSettings := by
  obtain ⟨p, hp, hviews⟩ := exists_build_of_any (columnRegistry ⟨⟨64, 64⟩, .float16b, 4, 8192⟩)
    reducedSpecs fusedSettings
    (fun p => p.views.any fun v => v.stage.spec.arithmetic == .reduce .row .max)
    (by decide +kernel)
  obtain ⟨v, hv, hcheck⟩ := List.any_eq_true.mp hviews
  exact ⟨p, hp, v, hv, by simpa using hcheck, (threads_agree hp).2 v hv⟩

end TileFusion
