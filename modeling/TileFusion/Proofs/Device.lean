import TileFusion.Proofs.Unrolling
import Mathlib.Logic.Function.Basic
import Mathlib.Logic.Relation

/-!
# Three threads on one device

The threads of a kernel run at their own pace and meet in three places: a counter of finished
outputs, the sections of the accumulator, and the queue in front of the arithmetic unit. A call
blocks only there. The schedule is left open: a run is any sequence of steps, each by a thread whose
next call does not block.

Calls of different threads never get in each other's way: each leaves the other one ready, and their
order does not matter (`Shared.after_comm`). Hence

> `Runs.ends_of_ends`: if one schedule brings a state to its end, every run from that state can be
> continued to the same end.

One good schedule is thus enough to know that no schedule gets stuck, and `Segment` is the calculus
in which such a schedule is put together.
-/

namespace TileFusion

/-! ## What calls do -/

/-- What a call does to the state that the threads share. -/
inductive Effect where
  /-- Nothing. -/
  | silent
  /-- Puts a tile into the queue. -/
  | load
  /-- Takes a tile out of the queue. -/
  | compute
  /-- Waits for a finished output. -/
  | awaitOutput
  /-- Reports a finished output. -/
  | reportOutput
  /-- Waits for a free section and claims it. -/
  | claim
  /-- Marks a claimed section as filled. -/
  | fill
  /-- Waits for a filled section. -/
  | awaitFilled
  /-- Frees a filled section. -/
  | release
  deriving DecidableEq, Repr

/-- The effect of a call. -/
def Call.effect : Call → Effect
  | .unpackPair .. | .unpackSingle .. | .unpackReduce .. | .unpackMatmul ..
  | .unpackTilize .. => .load
  | .eltwise .. | .reduce .. | .matmul .. | .datacopy .. => .compute
  | .waitForPack => .awaitOutput
  | .signalUnpack => .reportOutput
  | .waitForDest .. => .claim
  | .destSectionDone .. => .fill
  | .packWaitForMath => .awaitFilled
  | .packSectionDone .. => .release
  | _ => .silent

/-- The thread that makes calls of an effect. -/
def Effect.thread? : Effect → Option Thread
  | silent => none
  | load | awaitOutput => some .unpack
  | compute | claim | fill => some .math
  | reportOutput | awaitFilled | release => some .pack

/-- What the threads share. Sections are counted as integers because the calls that hand them on
never block, whatever the counts are. -/
structure Shared where
  /-- Outputs that were reported and not waited for yet. -/
  packDone : Nat
  /-- Free sections of the accumulator. -/
  free : Int
  /-- Sections that are being filled. -/
  claimed : Int
  /-- Filled sections. -/
  filled : Int
  /-- The loads whose tiles no arithmetic has taken yet, oldest first. -/
  queue : List Event

namespace Shared

/-- Whether a call goes through; the queue holds at most `capacity` tiles. -/
def ready (capacity : Nat) (s : Shared) (e : Event) : Bool :=
  match e.call.effect with
  | .load => decide (s.queue.length < capacity)
  | .compute => !s.queue.isEmpty
  | .awaitOutput => decide (0 < s.packDone)
  | .claim => decide (0 < s.free)
  | .awaitFilled => decide (0 < s.filled)
  | .silent | .reportOutput | .fill | .release => true

/-- The shared state behind a call. -/
def after (s : Shared) (e : Event) : Shared :=
  match e.call.effect with
  | .load => { s with queue := s.queue ++ [e] }
  | .compute => { s with queue := s.queue.tail }
  | .awaitOutput => { s with packDone := s.packDone - 1 }
  | .reportOutput => { s with packDone := s.packDone + 1 }
  | .claim => { s with free := s.free - 1, claimed := s.claimed + 1 }
  | .fill => { s with claimed := s.claimed - 1, filled := s.filled + 1 }
  | .release => { s with filled := s.filled - 1, free := s.free + 1 }
  | .silent | .awaitFilled => s

/-- No call of two belongs to the thread of the other. -/
def Apart (x y : Event) : Prop :=
  ∀ t, x.call.effect.thread? = some t → y.call.effect.thread? ≠ some t

theorem Apart.symm {x y : Event} (h : Apart x y) : Apart y x :=
  fun t hy hx => h t hx hy

theorem Apart.ne {x y : Event} (h : Apart x y) {effect : Effect} {t : Thread}
    (ht : effect.thread? = some t) (hy : y.call.effect = effect) : x.call.effect ≠ effect := by
  intro hx
  exact h t (by rw [hx, ht]) (by rw [hy, ht])

section Waits

variable {s : Shared} {x : Event}

-- What a call can wait for is taken away by calls of its own effect only. The one exception is a
-- filled section, which the pack thread awaits and frees by different calls.

theorem length_queue_after (h : x.call.effect ≠ .load) :
    (s.after x).queue.length ≤ s.queue.length := by
  unfold after
  cases hx : x.call.effect <;> simp_all

theorem queue_after_ne_nil (h : x.call.effect ≠ .compute) (hs : s.queue ≠ []) :
    (s.after x).queue ≠ [] := by
  unfold after
  cases hx : x.call.effect <;> simp_all

theorem packDone_le_after (h : x.call.effect ≠ .awaitOutput) :
    s.packDone ≤ (s.after x).packDone := by
  unfold after
  cases hx : x.call.effect <;> simp_all

theorem free_le_after (h : x.call.effect ≠ .claim) : s.free ≤ (s.after x).free := by
  unfold after
  cases hx : x.call.effect with
  | claim => exact absurd hx h
  | release =>
    show s.free ≤ s.free + 1
    omega
  | _ => exact Int.le_refl _

theorem filled_le_after (h : x.call.effect ≠ .release) : s.filled ≤ (s.after x).filled := by
  unfold after
  cases hx : x.call.effect with
  | release => exact absurd hx h
  | fill =>
    show s.filled ≤ s.filled + 1
    omega
  | _ => exact Int.le_refl _

end Waits

/-- A call of another thread leaves a call ready. -/
theorem ready_after {capacity : Nat} {s : Shared} {x y : Event} (h : Apart x y)
    (hy : s.ready capacity y = true) : (s.after x).ready capacity y = true := by
  unfold ready at hy ⊢
  cases hey : y.call.effect with
  | silent | reportOutput | fill | release => rfl
  | load =>
    have hle := length_queue_after (s := s) (h.ne rfl hey)
    simp only [hey, decide_eq_true_eq] at hy ⊢
    omega
  | compute =>
    simp only [hey, Bool.not_eq_true', List.isEmpty_eq_false_iff] at hy ⊢
    exact queue_after_ne_nil (h.ne rfl hey) hy
  | awaitOutput =>
    have hle := packDone_le_after (s := s) (h.ne rfl hey)
    simp only [hey, decide_eq_true_eq] at hy ⊢
    omega
  | claim =>
    have hle := free_le_after (s := s) (h.ne rfl hey)
    simp only [hey, decide_eq_true_eq] at hy ⊢
    omega
  | awaitFilled =>
    have hne : x.call.effect ≠ .release := by
      intro hx
      exact h .pack (by rw [hx]; rfl) (by rw [hey]; rfl)
    have hle := filled_le_after (s := s) hne
    simp only [hey, decide_eq_true_eq] at hy ⊢
    omega

/-- Ready calls of two threads can be made in either order. -/
theorem after_comm {capacity : Nat} {s : Shared} {x y : Event} (h : Apart x y)
    (hx : s.ready capacity x = true) (hy : s.ready capacity y = true) :
    (s.after x).after y = (s.after y).after x := by
  unfold ready at hx hy
  unfold after
  cases hex : x.call.effect <;> cases hey : y.call.effect <;>
    first
    | exact absurd (by rw [hey]; rfl) (h _ (by rw [hex]; rfl))
    | simp only [hex, hey, Bool.not_eq_true', List.isEmpty_eq_false_iff, decide_eq_true_eq,
        Shared.mk.injEq, true_and, and_true] at hx hy ⊢
  -- what is left are calls that meet: at the queue, at the finished outputs, or at a section
  case load.compute => exact List.tail_append_of_ne_nil hy
  case compute.load => exact (List.tail_append_of_ne_nil hx).symm
  all_goals omega

end Shared

/-! ## Runs -/

/-- A device in the middle of a run. -/
structure Device where
  /-- The calls that each thread has still to make. -/
  rest : Thread → List Event
  /-- What the threads share. -/
  shared : Shared

namespace Device

/-- A thread makes its next call, if there is one and it goes through. -/
def step (capacity : Nat) (d : Device) (t : Thread) : Option Device :=
  match d.rest t with
  | [] => none
  | e :: rest =>
    if d.shared.ready capacity e then some ⟨Function.update d.rest t rest, d.shared.after e⟩
    else none

/-- All threads are through. -/
def Finished (d : Device) : Prop :=
  ∀ t, d.rest t = []

/-- Every thread makes only calls of its own. -/
def Own (d : Device) : Prop :=
  ∀ t, ∀ e ∈ d.rest t, ∀ t', e.call.effect.thread? = some t' → t' = t

variable {capacity : Nat} {d d' : Device} {t : Thread}

/-- All that a step can be. -/
theorem step_eq_some_iff :
    d.step capacity t = some d' ↔
      ∃ e rest, d.rest t = e :: rest ∧ d.shared.ready capacity e = true ∧
        d' = ⟨Function.update d.rest t rest, d.shared.after e⟩ := by
  unfold step
  cases d.rest t with
  | nil => simp
  | cons e rest =>
    by_cases he : d.shared.ready capacity e = true
    · simp only [he, if_true, Option.some.injEq, List.cons.injEq]
      constructor
      · rintro rfl
        exact ⟨e, rest, ⟨rfl, rfl⟩, he, rfl⟩
      · rintro ⟨_, _, ⟨rfl, rfl⟩, -, rfl⟩
        rfl
    · simp only [he, Bool.false_eq_true, if_false, reduceCtorEq, List.cons.injEq, false_iff]
      rintro ⟨_, _, ⟨rfl, rfl⟩, hready, -⟩
      exact he hready

theorem Own.step (h : d.Own) (hs : d.step capacity t = some d') : d'.Own := by
  obtain ⟨e, rest, hrest, -, rfl⟩ := step_eq_some_iff.mp hs
  intro u x hx
  by_cases hu : u = t
  · subst hu
    have hx : x ∈ rest := by simpa using hx
    exact h u x (by rw [hrest]; exact List.mem_cons_of_mem _ hx)
  · have hx : x ∈ d.rest u := by simpa [hu] using hx
    exact h u x hx

/-- **Steps of two threads commute**: whichever comes first, the other one is still possible, and
both orders end in the same state. -/
theorem step_comm (h : d.Own) {u : Thread} (htu : t ≠ u) {x y : Device}
    (hx : d.step capacity t = some x) (hy : d.step capacity u = some y) :
    ∃ z, x.step capacity u = some z ∧ y.step capacity t = some z := by
  obtain ⟨e, rest, he, hready, rfl⟩ := step_eq_some_iff.mp hx
  obtain ⟨e', rest', he', hready', rfl⟩ := step_eq_some_iff.mp hy
  have hap : Shared.Apart e e' := by
    intro v hv hv'
    have h₁ := h t e (by rw [he]; exact List.mem_cons_self ..) v hv
    have h₂ := h u e' (by rw [he']; exact List.mem_cons_self ..) v hv'
    exact htu (h₁.symm.trans h₂)
  refine ⟨⟨Function.update (Function.update d.rest t rest) u rest',
    (d.shared.after e).after e'⟩, ?_, ?_⟩
  · rw [step_eq_some_iff]
    exact ⟨e', rest', by simp [htu.symm, he'], Shared.ready_after hap hready', rfl⟩
  · rw [step_eq_some_iff]
    refine ⟨e, rest, by simp [htu, he], Shared.ready_after hap.symm hready, ?_⟩
    rw [Function.update_comm htu, Shared.after_comm hap hready hready']

end Device

/-- One step by some thread. -/
def Device.Next (capacity : Nat) (d d' : Device) : Prop :=
  ∃ t, d.step capacity t = some d'

/-- Any number of steps, by any threads. -/
abbrev Device.Runs (capacity : Nat) : Device → Device → Prop :=
  Relation.ReflTransGen (Device.Next capacity)

namespace Device

variable {capacity : Nat} {d d' f : Device}

theorem Runs.own (h : Runs capacity d d') (hd : d.Own) : d'.Own := by
  induction h with
  | refl => exact hd
  | tail _ hs ih =>
    obtain ⟨t, hs⟩ := hs
    exact ih.step hs

theorem not_next_of_finished (h : d.Finished) : ¬Next capacity d d' := by
  rintro ⟨t, hs⟩
  obtain ⟨e, rest, he, -⟩ := step_eq_some_iff.mp hs
  rw [h t] at he
  simp at he

/-- A step leads away from no end. -/
theorem runs_of_next (hd : d.Own) (hf : f.Finished) (h : Runs capacity d f) :
    ∀ {x : Device}, Next capacity d x → Runs capacity x f := by
  induction h using Relation.ReflTransGen.head_induction_on with
  | refl => exact fun hx => absurd hx (not_next_of_finished hf)
  | head hs hrest ih =>
    intro x hx
    obtain ⟨t, hs⟩ := hs
    obtain ⟨u, hx⟩ := hx
    by_cases htu : t = u
    · subst htu
      obtain rfl := Option.some.inj (hs.symm.trans hx)
      exact hrest
    · obtain ⟨z, hz, hz'⟩ := step_comm hd htu hs hx
      exact .head ⟨t, hz'⟩ (ih (hd.step hs) ⟨u, hz⟩)

/-- **If one schedule comes to an end, every run can be continued to that end.** -/
theorem Runs.ends_of_ends (hd : d.Own) (hf : f.Finished) (hend : Runs capacity d f)
    (h : Runs capacity d d') : Runs capacity d' f := by
  induction h with
  | refl => exact hend
  | tail hrun hs ih => exact runs_of_next (Runs.own hrun hd) hf ih hs

end Device

/-! ## Putting a schedule together -/

/-- The calls of the three threads. -/
def threads (us ms ps : List Event) : Thread → List Event
  | .unpack => us
  | .math => ms
  | .pack => ps

/-- The calls `us`, `ms` and `ps` at the front of the threads can be made so that they turn `s` into
`s'`, whatever stands behind them. -/
def Segment (capacity : Nat) (us ms ps : List Event) (s s' : Shared) : Prop :=
  ∀ us' ms' ps' : List Event,
    Device.Runs capacity ⟨threads (us ++ us') (ms ++ ms') (ps ++ ps'), s⟩
      ⟨threads us' ms' ps', s'⟩

namespace Segment

variable {capacity : Nat} {s s' s'' : Shared} {us ms ps us' ms' ps' : List Event} {e : Event}

theorem nil (s : Shared) : Segment capacity [] [] [] s s :=
  fun _ _ _ => .refl

theorem append (h : Segment capacity us ms ps s s') (h' : Segment capacity us' ms' ps' s' s'') :
    Segment capacity (us ++ us') (ms ++ ms') (ps ++ ps') s s'' := by
  intro us'' ms'' ps''
  rw [List.append_assoc, List.append_assoc, List.append_assoc]
  exact (h _ _ _).trans (h' us'' ms'' ps'')

/-- The unpack thread makes one call. -/
theorem unpack (h : s.ready capacity e = true) : Segment capacity [e] [] [] s (s.after e) := by
  intro us ms ps
  refine .single ⟨.unpack, Device.step_eq_some_iff.mpr ⟨e, us, rfl, h, ?_⟩⟩
  congr 1
  funext t
  cases t <;> rfl

/-- The math thread makes one call. -/
theorem math (h : s.ready capacity e = true) : Segment capacity [] [e] [] s (s.after e) := by
  intro us ms ps
  refine .single ⟨.math, Device.step_eq_some_iff.mpr ⟨e, ms, rfl, h, ?_⟩⟩
  congr 1
  funext t
  cases t <;> rfl

/-- The pack thread makes one call. -/
theorem pack (h : s.ready capacity e = true) : Segment capacity [] [] [e] s (s.after e) := by
  intro us ms ps
  refine .single ⟨.pack, Device.step_eq_some_iff.mpr ⟨e, ps, rfl, h, ?_⟩⟩
  congr 1
  funext t
  cases t <;> rfl

/-- Turn by turn, when every turn leaves the shared state as it was. -/
theorem flatMap {α : Type} {f g h : α → List Event} {xs : List α}
    (hx : ∀ x ∈ xs, Segment capacity (f x) (g x) (h x) s s) :
    Segment capacity (xs.flatMap f) (xs.flatMap g) (xs.flatMap h) s s := by
  induction xs with
  | nil => exact nil s
  | cons x xs ih =>
    simp only [List.flatMap_cons]
    exact (hx x (List.mem_cons_self ..)).append (ih fun y hy => hx y (List.mem_cons_of_mem _ hy))

theorem ready_silent (h : e.call.effect = .silent) : s.ready capacity e = true := by
  simp [Shared.ready, h]

theorem after_silent (h : e.call.effect = .silent) : s.after e = s := by
  simp [Shared.after, h]

/-- Calls without an effect, on all threads. -/
theorem silent (hu : ∀ e ∈ us, e.call.effect = .silent) (hm : ∀ e ∈ ms, e.call.effect = .silent)
    (hp : ∀ e ∈ ps, e.call.effect = .silent) : Segment capacity us ms ps s s := by
  have hnil : ∀ xs : List Event, xs.flatMap (fun _ => ([] : List Event)) = [] := by simp
  have hus : Segment capacity us [] [] s s := by
    have h := flatMap (f := fun e => [e]) (g := fun _ => []) (h := fun _ => []) fun e he => by
      have hstep : Segment capacity [e] [] [] s (s.after e) := unpack (ready_silent (hu e he))
      rwa [after_silent (hu e he)] at hstep
    simpa [hnil] using h
  have hms : Segment capacity [] ms [] s s := by
    have h := flatMap (f := fun _ => []) (g := fun e => [e]) (h := fun _ => []) fun e he => by
      have hstep : Segment capacity [] [e] [] s (s.after e) := math (ready_silent (hm e he))
      rwa [after_silent (hm e he)] at hstep
    simpa [hnil] using h
  have hps : Segment capacity [] [] ps s s := by
    have h := flatMap (f := fun _ => []) (g := fun _ => []) (h := fun e => [e]) fun e he => by
      have hstep : Segment capacity [] [] [e] s (s.after e) := pack (ready_silent (hp e he))
      rwa [after_silent (hp e he)] at hstep
    simpa [hnil] using h
  simpa using (hus.append hms).append hps

/-- As many loads as computations, one after the other through an empty queue. -/
theorem exchange (hc : 1 ≤ capacity) (hq : s.queue = []) :
    ∀ {us ms : List Event}, us.length = ms.length → (∀ e ∈ us, e.call.effect = .load) →
      (∀ e ∈ ms, e.call.effect = .compute) → Segment capacity us ms [] s s
  | [], [], _, _, _ => nil s
  | u :: us, m :: ms, hlen, hu, hm => by
    have heu := hu u (List.mem_cons_self ..)
    have hem := hm m (List.mem_cons_self ..)
    have hload : s.ready capacity u = true := by simp [Shared.ready, heu, hq]; omega
    have hcompute : (s.after u).ready capacity m = true := by
      simp [Shared.ready, Shared.after, hem, heu]
    have hback : (s.after u).after m = s := by
      simp only [Shared.after, heu, hem, hq, List.nil_append, List.tail_cons]
      rw [← hq]
    have hpair := (unpack hload).append (math hcompute)
    rw [hback] at hpair
    exact hpair.append (exchange hc hq (by simpa using hlen)
      (fun x hx => hu x (List.mem_cons_of_mem _ hx)) fun x hx => hm x (List.mem_cons_of_mem _ hx))

/-- A batch: a section is claimed, filled from the queue, handed on, drained and freed. -/
theorem batch {prepare loads before computes behind packs : List Event}
    {claim fill await release : Event} (hc : 1 ≤ capacity) (hq : s.queue = []) (hfree : 0 < s.free)
    (hfilled : 0 ≤ s.filled) (hclaim : claim.call.effect = .claim)
    (hfill : fill.call.effect = .fill) (hawait : await.call.effect = .awaitFilled)
    (hrelease : release.call.effect = .release) (hlen : loads.length = computes.length)
    (hloads : ∀ e ∈ loads, e.call.effect = .load)
    (hcomputes : ∀ e ∈ computes, e.call.effect = .compute)
    (hprepare : ∀ e ∈ prepare, e.call.effect = .silent)
    (hbefore : ∀ e ∈ before, e.call.effect = .silent)
    (hbehind : ∀ e ∈ behind, e.call.effect = .silent)
    (hpacks : ∀ e ∈ packs, e.call.effect = .silent) :
    Segment capacity (prepare ++ loads) (claim :: (before ++ computes ++ behind ++ [fill]))
      (await :: (packs ++ [release])) s s := by
  have hnone : ∀ e ∈ ([] : List Event), e.call.effect = .silent := by simp
  have hclaimed : Segment capacity [] [claim] [] s (s.after claim) :=
    math (by simp [Shared.ready, hclaim, hfree])
  have hstart : Segment capacity prepare before [] (s.after claim) (s.after claim) :=
    silent hprepare hbefore hnone
  have hwork : Segment capacity loads computes [] (s.after claim) (s.after claim) :=
    exchange hc (by simpa [Shared.after, hclaim] using hq) hlen hloads hcomputes
  have hclean : Segment capacity [] behind [] (s.after claim) (s.after claim) :=
    silent hnone hbehind hnone
  have hfull : Segment capacity [] [fill] [] (s.after claim) ((s.after claim).after fill) :=
    math (by simp [Shared.ready, hfill])
  have hseen : Segment capacity [] [] [await] ((s.after claim).after fill)
      (((s.after claim).after fill).after await) :=
    pack (by simp [Shared.ready, Shared.after, hawait, hfill, hclaim]; omega)
  have hdrain : Segment capacity [] [] packs (((s.after claim).after fill).after await)
      (((s.after claim).after fill).after await) :=
    silent hnone hnone hpacks
  have hfreed : Segment capacity [] [] [release] (((s.after claim).after fill).after await)
      ((((s.after claim).after fill).after await).after release) :=
    pack (by simp [Shared.ready, hrelease])
  have hback : (((s.after claim).after fill).after await).after release = s := by
    simp [Shared.after, hclaim, hfill, hawait, hrelease]
  rw [hback] at hfreed
  simpa using (((((((hclaimed.append hstart).append hwork).append hclean).append hfull).append
    hseen).append hdrain).append hfreed)

end Segment

end TileFusion
