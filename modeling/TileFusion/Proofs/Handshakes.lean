import TileFusion.Proofs.Schedule

/-!
# What holds at every moment of a run

Three invariants, one for each place where the threads meet. Each is a step lemma about an arbitrary
device whose threads make only calls of their own:

> `Outputs`: what was reported and what will be reported is what will be waited for, and the calls
> of a stage stand at the right distance from the waits and reports behind them;
> `Sections`: claims and handovers alternate, and so do waits and releases, so that no section is
> ever handed on that was not claimed, or freed that was not filled;
> `Tiles`: the tiles in the queue and those still to be loaded are, stage by stage and turn by turn,
> the ones that the arithmetic still has to take.
-/

namespace TileFusion

/-! ## Calls of an effect -/

/-- How many calls have an effect. -/
def count (effect : Effect) (es : List Event) : Nat :=
  es.countP fun e => e.call.effect = effect

@[simp] theorem count_nil (effect : Effect) : count effect [] = 0 :=
  rfl

@[simp] theorem count_cons (effect : Effect) (e : Event) (es : List Event) :
    count effect (e :: es) = count effect es + if e.call.effect = effect then 1 else 0 := by
  simp [count, List.countP_cons]

@[simp] theorem count_append (effect : Effect) (xs ys : List Event) :
    count effect (xs ++ ys) = count effect xs + count effect ys :=
  List.countP_append

theorem count_eq_zero {effect : Effect} {es : List Event} :
    count effect es = 0 ↔ ∀ e ∈ es, e.call.effect ≠ effect := by
  simp [count, List.countP_eq_zero]

/-- The turns of the calls of an effect. -/
def turnsOf (effect : Effect) (es : List Event) : List Turn :=
  (es.filter fun e => e.call.effect = effect).map (·.turn)

@[simp] theorem turnsOf_nil (effect : Effect) : turnsOf effect [] = [] :=
  rfl

@[simp] theorem turnsOf_cons (effect : Effect) (e : Event) (es : List Event) :
    turnsOf effect (e :: es) =
      if e.call.effect = effect then e.turn :: turnsOf effect es else turnsOf effect es := by
  by_cases h : e.call.effect = effect <;> simp [turnsOf, h]

@[simp] theorem turnsOf_append (effect : Effect) (xs ys : List Event) :
    turnsOf effect (xs ++ ys) = turnsOf effect xs ++ turnsOf effect ys := by
  simp [turnsOf]

@[simp] theorem turnsOf_map (effect : Effect) {call : Call} (h : call.effect = effect)
    (turns : List Turn) : turnsOf effect (turns.map (Event.mk call)) = turns := by
  induction turns with
  | nil => rfl
  | cons t ts ih => rw [List.map_cons, turnsOf_cons, if_pos h, ih]

theorem turnsOf_eq_nil {effect : Effect} {es : List Event}
    (h : ∀ e ∈ es, e.call.effect ≠ effect) : turnsOf effect es = [] := by
  simpa [turnsOf] using h

theorem turnsOf_flatMap {α : Type} (effect : Effect) (f : α → List Event) (xs : List α) :
    turnsOf effect (xs.flatMap f) = xs.flatMap fun x => turnsOf effect (f x) := by
  induction xs with
  | nil => rfl
  | cons x xs ih => simp [ih]

/-! ## Outputs -/

/-- Every call that `stage?` assigns to a stage `s` has as many calls of the effect behind it as
there are stages behind `s`, out of `n`; `behind` of these calls stand behind the whole list. -/
def Timed (effect : Effect) (stage? : Call → Option Nat) (n behind : Nat) : List Event → Prop
  | [] => True
  | e :: rest =>
    (∀ s, stage? e.call = some s → s + 1 + count effect rest + behind = n) ∧
      Timed effect stage? n behind rest

section Timed

variable {effect : Effect} {stage? : Call → Option Nat} {n behind : Nat}

/-- What stands behind counts for all that stands in front. -/
theorem timed_append {xs ys : List Event} :
    Timed effect stage? n behind (xs ++ ys) ↔
      Timed effect stage? n (count effect ys + behind) xs ∧ Timed effect stage? n behind ys := by
  induction xs with
  | nil => simp [Timed]
  | cons x xs ih =>
    simp only [List.cons_append, Timed, ih, count_append, and_assoc, Nat.add_assoc]

theorem timed_of_none {xs : List Event} (h : ∀ e ∈ xs, stage? e.call = none) :
    Timed effect stage? n behind xs := by
  induction xs with
  | nil => trivial
  | cons x xs ih =>
    refine ⟨fun s hs => ?_, ih fun e he => h e (List.mem_cons_of_mem _ he)⟩
    rw [h x (List.mem_cons_self ..)] at hs
    simp at hs

theorem timed_of_count_eq_zero {xs : List Event} (h : ∀ e ∈ xs, e.call.effect ≠ effect)
    (hs : ∀ e ∈ xs, ∀ s, stage? e.call = some s → s + 1 + behind = n) :
    Timed effect stage? n behind xs := by
  induction xs with
  | nil => trivial
  | cons x xs ih =>
    have hrest : ∀ e ∈ xs, e.call.effect ≠ effect := fun e he => h e (List.mem_cons_of_mem _ he)
    refine ⟨fun s hx => ?_, ih hrest fun e he => hs e (List.mem_cons_of_mem _ he)⟩
    rw [count_eq_zero.mpr hrest]
    exact hs x (List.mem_cons_self ..) s hx

/-- From anywhere in the list, no fewer calls of the effect stand behind. -/
theorem Timed.le_of_mem {xs : List Event} (h : Timed effect stage? n behind xs) :
    ∀ {e : Event} {s : Nat}, e ∈ xs → stage? e.call = some s →
      n ≤ s + 1 + count effect xs + behind := by
  induction xs with
  | nil => simp
  | cons x xs ih =>
    intro e s he hs
    rw [count_cons]
    rcases List.mem_cons.mp he with rfl | he
    · have := h.1 s hs
      omega
    · have := ih h.2 he hs
      omega

end Timed

/-- Reports match waits, and loads and packs stand at the right distance from them. -/
structure Outputs (n : Nat) (d : Device) : Prop where
  balance : d.shared.packDone + count .reportOutput (d.rest .pack) =
    count .awaitOutput (d.rest .unpack)
  loads : Timed .awaitOutput Call.load? n 0 (d.rest .unpack)
  packs : Timed .reportOutput Call.pack? n 0 (d.rest .pack)

/-- A stage loads only what the stages in front have written: when a load of stage `s` is next, no
pack of an earlier stage is left. -/
theorem Outputs.le_of_load {n : Nat} {d : Device} (h : Outputs n d) {e x : Event}
    {rest : List Event} {s t : Nat} (he : d.rest .unpack = e :: rest) (hs : e.call.load? = some s)
    (hx : x ∈ d.rest .pack) (ht : x.call.pack? = some t) : s ≤ t := by
  have hload := h.loads
  have hbalance := h.balance
  rw [he] at hload hbalance
  have hbehind := hload.1 s hs
  have hpacks := h.packs.le_of_mem hx ht
  rw [count_cons, effect_of_load? hs] at hbalance
  simp only [reduceCtorEq, if_false] at hbalance
  omega

namespace Device

variable {capacity : Nat} {d d' : Device} {t : Thread}

/-- One step keeps the outputs in balance. -/
theorem Own.outputs_step {n : Nat} (hd : d.Own) (h : Outputs n d)
    (hs : d.step capacity t = some d') : Outputs n d' := by
  obtain ⟨e, rest, he, hready, rfl⟩ := step_eq_some_iff.mp hs
  have hown := hd t e (by rw [he]; exact List.mem_cons_self ..)
  obtain ⟨hbalance, hloads, hpacks⟩ := h
  unfold Shared.ready at hready
  cases t with
  | unpack =>
    -- a wait takes one from the counter, and is one wait less to come
    rw [he] at hbalance hloads
    refine ⟨?_, hloads.2, hpacks⟩
    cases heff : e.call.effect <;> simp_all [Effect.thread?, Shared.after]
    omega
  | math =>
    refine ⟨?_, hloads, hpacks⟩
    cases heff : e.call.effect <;> simp_all [Effect.thread?, Shared.after]
  | pack =>
    -- a report moves from the calls to the counter
    rw [he] at hbalance hpacks
    refine ⟨?_, hloads, hpacks.2⟩
    cases heff : e.call.effect <;> simp_all [Effect.thread?, Shared.after]
    omega

end Device

/-! ## Sections of the accumulator -/

/-- Calls that enter and calls that leave take turns, starting with the one that `inside` asks for,
and the last one leaves. -/
def Alternates (enter leave : Effect) : Bool → List Event → Prop
  | inside, [] => inside = false
  | inside, e :: rest =>
    if e.call.effect = enter then inside = false ∧ Alternates enter leave true rest
    else if e.call.effect = leave then inside = true ∧ Alternates enter leave false rest
    else Alternates enter leave inside rest

section Alternates

variable {enter leave : Effect}

/-- Visits that are over can be followed by others. -/
theorem Alternates.append {xs ys : List Event} (hys : Alternates enter leave false ys) :
    ∀ {inside : Bool}, Alternates enter leave inside xs →
      Alternates enter leave inside (xs ++ ys) := by
  induction xs with
  | nil =>
    rintro inside rfl
    exact hys
  | cons x xs ih =>
    intro inside h
    rw [List.cons_append]
    unfold Alternates at h ⊢
    split
    · rename_i hx
      rw [if_pos hx] at h
      exact ⟨h.1, ih h.2⟩
    · rename_i hx
      rw [if_neg hx] at h
      split
      · rename_i hx'
        rw [if_pos hx'] at h
        exact ⟨h.1, ih h.2⟩
      · rename_i hx'
        rw [if_neg hx'] at h
        exact ih h

theorem Alternates.flatMap {α : Type} {f : α → List Event} {xs : List α}
    (h : ∀ x ∈ xs, Alternates enter leave false (f x)) :
    Alternates enter leave false (xs.flatMap f) := by
  induction xs with
  | nil => rfl
  | cons x xs ih =>
    rw [List.flatMap_cons]
    exact (ih fun y hy => h y (List.mem_cons_of_mem _ hy)).append (h x (List.mem_cons_self ..))

/-- Other calls do not count. -/
theorem Alternates.prepend {xs ys : List Event} {inside : Bool}
    (h : ∀ e ∈ xs, e.call.effect ≠ enter ∧ e.call.effect ≠ leave)
    (hys : Alternates enter leave inside ys) : Alternates enter leave inside (xs ++ ys) := by
  induction xs with
  | nil => exact hys
  | cons x xs ih =>
    obtain ⟨henter, hleave⟩ := h x (List.mem_cons_self ..)
    rw [List.cons_append, Alternates, if_neg henter, if_neg hleave]
    exact ih fun e he => h e (List.mem_cons_of_mem _ he)

theorem Alternates.tail {e : Event} {rest : List Event} {inside : Bool}
    (henter : e.call.effect ≠ enter) (hleave : e.call.effect ≠ leave)
    (h : Alternates enter leave inside (e :: rest)) : Alternates enter leave inside rest := by
  rwa [Alternates, if_neg henter, if_neg hleave] at h

/-- One visit. -/
theorem Alternates.visit {x y : Event} {xs : List Event} (hx : x.call.effect = enter)
    (hxs : ∀ e ∈ xs, e.call.effect ≠ enter ∧ e.call.effect ≠ leave) (hy : y.call.effect = leave)
    (hne : leave ≠ enter) : Alternates enter leave false (x :: (xs ++ [y])) := by
  rw [Alternates, if_pos hx]
  refine ⟨rfl, Alternates.prepend hxs ?_⟩
  rw [Alternates, if_neg (by rw [hy]; exact hne), if_pos hy]
  exact ⟨rfl, rfl⟩

end Alternates

/-- Sections are neither lost nor invented. The math thread holds at most one, and while the pack
thread drains one there is a filled one. -/
structure Sections (n : Nat) (d : Device) : Prop where
  total : d.shared.free + d.shared.claimed + d.shared.filled = n
  free : 0 ≤ d.shared.free
  math : ∃ inside, Alternates .claim .fill inside (d.rest .math) ∧
    d.shared.claimed = if inside then 1 else 0
  pack : ∃ inside, Alternates .awaitFilled .release inside (d.rest .pack) ∧
    (if inside then 1 else 0) ≤ d.shared.filled

/-- Calls that touch no section keep the invariant. -/
theorem Sections.of_shared_eq {n : Nat} {d : Device} (h : Sections n d)
    {rest : Thread → List Event} {s : Shared} (hfree : s.free = d.shared.free)
    (hclaimed : s.claimed = d.shared.claimed) (hfilled : s.filled = d.shared.filled)
    (hmath : ∀ inside, Alternates .claim .fill inside (d.rest .math) →
      Alternates .claim .fill inside (rest .math))
    (hpack : ∀ inside, Alternates .awaitFilled .release inside (d.rest .pack) →
      Alternates .awaitFilled .release inside (rest .pack)) : Sections n ⟨rest, s⟩ := by
  obtain ⟨htotal, hnonneg, ⟨claiming, hm, hc⟩, draining, hp, hf⟩ := h
  refine ⟨?_, ?_, ⟨claiming, hmath _ hm, ?_⟩, draining, hpack _ hp, ?_⟩
  · rw [hfree, hclaimed, hfilled]
    exact htotal
  · rw [hfree]
    exact hnonneg
  · rw [hclaimed]
    exact hc
  · rw [hfilled]
    exact hf

/-! ## Tiles in the queue -/

/-- The tile that a load brings in: the stage that it is for, and the turn of the loops. -/
def Event.tile (e : Event) : Option Nat × Turn :=
  (e.call.load?, e.turn)

/-- The tiles that loads bring in. -/
def loaded (es : List Event) : List (Option Nat × Turn) :=
  (es.filter fun e => e.call.effect = .load).map Event.tile

@[simp] theorem loaded_cons (e : Event) (es : List Event) :
    loaded (e :: es) = if e.call.effect = .load then e.tile :: loaded es else loaded es := by
  by_cases h : e.call.effect = .load <;> simp [loaded, h]

theorem loaded_flatMap {α : Type} (f : α → List Event) (xs : List α) :
    loaded (xs.flatMap f) = xs.flatMap fun x => loaded (f x) := by
  unfold loaded
  rw [List.filter_flatMap, List.map_flatMap]

/-- The loads of one stage. -/
theorem loaded_eq_map {stage : Nat} {es : List Event}
    (h : ∀ e ∈ es, e.call.effect = .load → e.call.load? = some stage) :
    loaded es = (turnsOf .load es).map (Prod.mk (some stage)) := by
  rw [loaded, turnsOf, List.map_map]
  refine List.map_congr_left fun e he => ?_
  obtain ⟨hmem, heff⟩ := List.mem_filter.mp he
  rw [Event.tile, h e hmem (by simpa using heff)]
  rfl

/-- The stage whose section is handed on next. -/
def handedOn? (es : List Event) : Option Nat :=
  es.findSome? (·.call.fill?)

/-- The tiles that the arithmetic takes. Not every call of it names its stage, but each works into
the section that is handed on next. -/
def taken : List Event → List (Option Nat × Turn)
  | [] => []
  | e :: rest =>
    if e.call.effect = .compute then (handedOn? rest, e.turn) :: taken rest else taken rest

/-- All arithmetic in `es` is done for one stage, whatever comes behind. -/
def Serves (stage : Nat) (es : List Event) : Prop :=
  ∀ ys, taken (es ++ ys) = (turnsOf .compute es).map (Prod.mk (some stage)) ++ taken ys

section Serves

variable {stage : Nat} {xs ys : List Event}

/-- Calls for one stage can be followed by others for it. -/
theorem Serves.append (hx : Serves stage xs) (hy : Serves stage ys) :
    Serves stage (xs ++ ys) := by
  intro zs
  rw [List.append_assoc, hx, hy, turnsOf_append, List.map_append, List.append_assoc]

theorem Serves.flatMap {α : Type} {f : α → List Event} {xs : List α}
    (h : ∀ x ∈ xs, Serves stage (f x)) : Serves stage (xs.flatMap f) := by
  induction xs with
  | nil => exact fun _ => rfl
  | cons x xs ih =>
    rw [List.flatMap_cons]
    exact (h x (List.mem_cons_self ..)).append (ih fun y hy => h y (List.mem_cons_of_mem _ hy))

/-- Other calls serve any stage. -/
theorem Serves.of_idle (h : ∀ e ∈ xs, e.call.effect ≠ .compute) : Serves stage xs := by
  intro ys
  induction xs with
  | nil => rfl
  | cons x xs ih =>
    rw [List.forall_mem_cons] at h
    rw [List.cons_append, taken, if_neg h.1, turnsOf_cons, if_neg h.1, ih h.2]

/-- What stands in front of the call that hands a section on serves the stage of that section. -/
theorem Serves.of_fill {fill : Event} (hfill : fill.call.fill? = some stage)
    (h : ∀ e ∈ xs, e.call.effect ≠ .fill) : Serves stage (xs ++ [fill]) := by
  have hlast : fill.call.effect ≠ .compute := by simp [effect_of_fill? hfill]
  intro ys
  rw [List.append_assoc, List.singleton_append, turnsOf_append, turnsOf_cons, if_neg hlast,
    turnsOf_nil, List.append_nil]
  induction xs with
  | nil =>
    rw [List.nil_append, taken, if_neg hlast]
    rfl
  | cons x xs ih =>
    rw [List.forall_mem_cons] at h
    have hnext : handedOn? (xs ++ fill :: ys) = some stage := by
      have hnone : xs.findSome? (·.call.fill?) = none :=
        List.findSome?_eq_none_iff.mpr fun e he => fill?_eq_none (h.2 e he)
      simp [handedOn?, List.findSome?_append, hnone, hfill]
    rw [List.cons_append, taken, ih h.2, hnext, turnsOf_cons]
    split <;> rfl

end Serves

/-- The queue holds, oldest first, what the arithmetic takes next, and every tile is for a stage. -/
structure Tiles (capacity : Nat) (d : Device) : Prop where
  room : d.shared.queue.length ≤ capacity
  tiles : d.shared.queue.map Event.tile ++ loaded (d.rest .unpack) = taken (d.rest .math)
  staged : ∀ x ∈ taken (d.rest .math), x.1.isSome = true

namespace Device

variable {capacity : Nat} {d d' : Device} {t : Thread}

/-- One step keeps the sections. -/
theorem Own.sections_step {n : Nat} (hd : d.Own) (h : Sections n d)
    (hs : d.step capacity t = some d') : Sections n d' := by
  obtain ⟨e, rest, he, hready, rfl⟩ := step_eq_some_iff.mp hs
  have hown := hd t e (by rw [he]; exact List.mem_cons_self ..)
  unfold Shared.ready at hready
  cases t with
  | unpack =>
    have hsame : (d.shared.after e).free = d.shared.free ∧
        (d.shared.after e).claimed = d.shared.claimed ∧
        (d.shared.after e).filled = d.shared.filled := by
      cases heff : e.call.effect <;> simp_all [Effect.thread?, Shared.after]
    exact h.of_shared_eq hsame.1 hsame.2.1 hsame.2.2 (fun _ hm => hm) fun _ hp => hp
  | math =>
    cases heff : e.call.effect with
    | claim =>
      -- the call has waited for a free section
      obtain ⟨htotal, hfree, ⟨claiming, hmath, hclaimed⟩, hpack⟩ := h
      rw [he, Alternates, if_pos heff] at hmath
      obtain ⟨rfl, hrest⟩ := hmath
      simp only [heff, decide_eq_true_eq] at hready
      simp only [Bool.false_eq_true, if_false] at hclaimed
      refine ⟨?_, ?_, ⟨true, hrest, ?_⟩, ?_⟩ <;> simp only [Shared.after, heff]
      · omega
      · omega
      · simp [hclaimed]
      · exact hpack
    | fill =>
      obtain ⟨htotal, hfree, ⟨claiming, hmath, hclaimed⟩, draining, hpack, hfilled⟩ := h
      rw [he, Alternates, if_neg (by simp [heff]), if_pos heff] at hmath
      obtain ⟨rfl, hrest⟩ := hmath
      simp only [if_true] at hclaimed
      refine ⟨?_, ?_, ⟨false, hrest, ?_⟩, draining, hpack, ?_⟩ <;> simp only [Shared.after, heff]
      · omega
      · exact hfree
      · simp [hclaimed]
      · omega
    | silent | compute =>
      refine h.of_shared_eq ?_ ?_ ?_ (fun _ hm => ?_) fun _ hp => hp
      · simp [Shared.after, heff]
      · simp [Shared.after, heff]
      · simp [Shared.after, heff]
      · rw [he] at hm
        exact Alternates.tail (by simp [heff]) (by simp [heff]) hm
    | _ => exact absurd (hown _ (by rw [heff]; rfl)) (by decide)
  | pack =>
    cases heff : e.call.effect with
    | awaitFilled =>
      obtain ⟨htotal, hfree, hmath, draining, hpack, hfilled⟩ := h
      rw [he, Alternates, if_pos heff] at hpack
      obtain ⟨rfl, hrest⟩ := hpack
      simp only [heff, decide_eq_true_eq] at hready
      refine ⟨?_, ?_, ?_, true, hrest, ?_⟩ <;> simp only [Shared.after, heff]
      · exact htotal
      · exact hfree
      · exact hmath
      · simp only [if_true]
        omega
    | release =>
      -- the call does not wait, but the section that it frees was awaited before
      obtain ⟨htotal, hfree, hmath, draining, hpack, hfilled⟩ := h
      rw [he, Alternates, if_neg (by simp [heff]), if_pos heff] at hpack
      obtain ⟨rfl, hrest⟩ := hpack
      simp only [if_true] at hfilled
      refine ⟨?_, ?_, ?_, false, hrest, ?_⟩ <;> simp only [Shared.after, heff]
      · omega
      · omega
      · exact hmath
      · simp only [Bool.false_eq_true, if_false]
        omega
    | silent | reportOutput =>
      refine h.of_shared_eq ?_ ?_ ?_ (fun _ hm => hm) fun _ hp => ?_
      · simp [Shared.after, heff]
      · simp [Shared.after, heff]
      · simp [Shared.after, heff]
      · rw [he] at hp
        exact Alternates.tail (by simp [heff]) (by simp [heff]) hp
    | _ => exact absurd (hown _ (by rw [heff]; rfl)) (by decide)

/-- One step keeps the tiles in order. -/
theorem Own.tiles_step (hd : d.Own) (h : Tiles capacity d)
    (hs : d.step capacity t = some d') : Tiles capacity d' := by
  obtain ⟨e, rest, he, hready, rfl⟩ := step_eq_some_iff.mp hs
  have hown := hd t e (by rw [he]; exact List.mem_cons_self ..)
  obtain ⟨hroom, htiles, hstaged⟩ := h
  unfold Shared.ready at hready
  cases t with
  | unpack =>
    rw [he, loaded_cons] at htiles
    cases heff : e.call.effect with
    | load =>
      -- the tile moves from the calls to the queue
      simp only [heff, decide_eq_true_eq] at hready
      rw [if_pos heff] at htiles
      refine ⟨?_, ?_, hstaged⟩ <;> simp only [Shared.after, heff]
      · rw [List.length_append]
        exact hready
      · rw [List.map_append, List.append_assoc]
        exact htiles
    | silent | awaitOutput =>
      rw [if_neg (by simp [heff])] at htiles
      refine ⟨?_, ?_, hstaged⟩ <;> simp only [Shared.after, heff]
      · exact hroom
      · exact htiles
    | _ => exact absurd (hown _ (by rw [heff]; rfl)) (by decide)
  | math =>
    rw [he, taken] at htiles hstaged
    cases heff : e.call.effect with
    | compute =>
      -- the oldest tile leaves the queue
      rw [if_pos heff] at htiles hstaged
      cases hq : d.shared.queue with
      | nil => simp [heff, hq] at hready
      | cons x queue =>
        rw [hq] at htiles hroom
        refine ⟨?_, ?_, fun y hy => hstaged y (List.mem_cons_of_mem _ hy)⟩ <;>
          simp only [Shared.after, heff, hq, List.tail_cons]
        · exact Nat.le_of_succ_le hroom
        · exact List.tail_eq_of_cons_eq htiles
    | silent | claim | fill =>
      rw [if_neg (by simp [heff])] at htiles hstaged
      refine ⟨?_, ?_, hstaged⟩ <;> simp only [Shared.after, heff]
      · exact hroom
      · exact htiles
    | _ => exact absurd (hown _ (by rw [heff]; rfl)) (by decide)
  | pack =>
    have hsame : (d.shared.after e).queue = d.shared.queue := by
      cases heff : e.call.effect <;> simp_all [Effect.thread?, Shared.after]
    refine ⟨?_, ?_, hstaged⟩ <;> simp only [hsame]
    · exact hroom
    · exact htiles

end Device

/-- The arithmetic takes the tile that was loaded for its own stage, in its own turn. -/
theorem Tiles.own {capacity : Nat} {d : Device} (h : Tiles capacity d) {e x : Event}
    {rest queue : List Event} (he : d.rest .math = e :: rest) (heff : e.call.effect = .compute)
    (hq : d.shared.queue = x :: queue) :
    x.turn = e.turn ∧ ∃ s, x.call.load? = some s ∧ handedOn? rest = some s := by
  have htiles := h.tiles
  have hstaged := h.staged
  rw [he, taken, if_pos heff] at htiles hstaged
  rw [hq] at htiles
  obtain ⟨hload, hturn⟩ := Prod.mk.inj (List.cons.inj htiles).1
  obtain ⟨s, hs⟩ := Option.isSome_iff_exists.mp (hstaged _ (List.mem_cons_self ..))
  exact ⟨hturn, s, hload.trans hs, hs⟩

end TileFusion
