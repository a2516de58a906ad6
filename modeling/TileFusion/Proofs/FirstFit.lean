import TileFusion.Placement
import Mathlib.Order.Bounds.Basic
import Mathlib.Data.List.Pairwise
import Mathlib.Data.List.Sort

/-!
# Placement is first fit

`Registry.allocate` scans a sorted list of extents, stops early and rounds up on the way. This file
says what the scan computes, without the scan:

> `firstFit_isLeast`: the address found is the least one that is aligned, not below `baseAddress`,
> ends inside a word and keeps apart from everything taken;
> `firstFit_eq_none`: when none is found there is no such address.

The scan needs nothing but extents sorted by start. Extents of no bytes may stand anywhere, also on
the edge of another one, and the list of taken extents need not be ordered by `stop`.

`FirstFit` lifts this to a list of operands, one after the other in declaration order, and
`allocate_eq_ok_iff` is the whole of placement as two order-free facts: buffers at requested
addresses are pairwise apart, and every other buffer has its lowest free address.
-/

namespace TileFusion

/-! ## Memory that is not shared -/

/-- The addresses from `start` up to, not including, `stop`. -/
structure Span where
  /-- First address. -/
  start : Nat
  /-- First address behind. -/
  stop : Nat
  deriving DecidableEq, Repr

/-- One of the two ends no later than the other starts. -/
def Span.Apart (x y : Span) : Prop :=
  x.stop ≤ y.start ∨ y.stop ≤ x.start

theorem Span.Apart.symm {x y : Span} (h : x.Apart y) : y.Apart x :=
  Or.symm h

/-- The addresses of an extent, whoever owns them. -/
def Extent.span (x : Extent) : Span :=
  ⟨x.start, x.stop⟩

/-- Sorted by start, which is all that the scan needs. -/
def Extent.Ascending (xs : List Extent) : Prop :=
  xs.Pairwise fun x y => x.start ≤ y.start

/-! ## The scan -/

/-- An address at or above `start` where `size` bytes may be put beside the taken spans. -/
structure IsFree (taken : List Span) (size start address : Nat) : Prop where
  /-- Placement only hands out multiples of the alignment. -/
  aligned : alignment ∣ address
  /-- Nothing is put below `start`. -/
  above : start ≤ address
  /-- The last address is a word. -/
  fits : address + size < wordLimit
  /-- No memory is shared. -/
  apart : ∀ x ∈ taken, address + size ≤ x.start ∨ x.stop ≤ address

theorem dvd_baseAddress : alignment ∣ baseAddress := by decide

/-- Rounding up gives the least multiple at or above an address. -/
theorem alignUp?_eq_some {a b : Nat} (h : alignUp? a = some b) :
    alignment ∣ b ∧ a ≤ b ∧ ∀ c, alignment ∣ c → a ≤ c → b ≤ c := by
  unfold alignUp? at h
  cases hw : word? (a + (alignment - 1)) with
  | none => rw [hw] at h; simp at h
  | some p =>
    rw [hw] at h
    obtain ⟨-, rfl⟩ := word?_eq_some_iff.mp hw
    simp only [Option.bind_eq_bind, Option.bind_some, Option.pure_def, Option.some.injEq] at h
    subst h
    refine ⟨Nat.dvd_mul_left .., ?_, ?_⟩
    · simp only [alignment]
      omega
    · rintro c ⟨k, rfl⟩ hle
      simp only [alignment] at hle ⊢
      omega

/-- Rounding up fails only where no multiple is left. -/
theorem alignUp?_eq_none {a : Nat} (h : alignUp? a = none) :
    ∀ c, alignment ∣ c → a ≤ c → wordLimit ≤ c := by
  unfold alignUp? at h
  cases hw : word? (a + (alignment - 1)) with
  | some p => rw [hw] at h; simp at h
  | none =>
    have hge : ¬a + (alignment - 1) < wordLimit := by
      intro hlt
      rw [word?, if_pos hlt] at hw
      simp at hw
    rintro c ⟨k, rfl⟩ hle
    simp only [alignment, wordLimit] at hge hle ⊢
    omega

theorem isFree_nil {size start a : Nat} :
    IsFree [] size start a ↔ alignment ∣ a ∧ start ≤ a ∧ a + size < wordLimit :=
  ⟨fun h => ⟨h.aligned, h.above, h.fits⟩, fun ⟨h1, h2, h3⟩ => ⟨h1, h2, h3, by simp⟩⟩

/-- A span that lies below the start is no obstacle. -/
theorem isFree_cons_of_stop_le {x : Span} {taken : List Span} {size start a : Nat}
    (h : x.stop ≤ start) : IsFree (x :: taken) size start a ↔ IsFree taken size start a := by
  constructor
  · intro hf
    exact ⟨hf.aligned, hf.above, hf.fits, fun y hy => hf.apart y (List.mem_cons_of_mem _ hy)⟩
  · intro hf
    refine ⟨hf.aligned, hf.above, hf.fits, ?_⟩
    intro y hy
    rcases List.mem_cons.mp hy with rfl | hy
    · exact Or.inr (Nat.le_trans h hf.above)
    · exact hf.apart y hy

/-- A span in the way moves the start to the first multiple behind it. -/
theorem isFree_cons_of_blocked {x : Span} {taken : List Span} {size start next a : Nat}
    (hblock : ¬start + size ≤ x.start) (hlt : start < x.stop)
    (hnext : alignUp? x.stop = some next) :
    IsFree (x :: taken) size start a ↔ IsFree taken size next a := by
  obtain ⟨-, hle, hleast⟩ := alignUp?_eq_some hnext
  constructor
  · intro hf
    have hstop : x.stop ≤ a := by
      rcases hf.apart x (List.mem_cons_self ..) with h | h
      · exact absurd (Nat.le_trans (Nat.add_le_add_right hf.above size) h) hblock
      · exact h
    exact ⟨hf.aligned, hleast a hf.aligned hstop, hf.fits,
      fun y hy => hf.apart y (List.mem_cons_of_mem _ hy)⟩
  · intro hf
    have hstop : x.stop ≤ a := Nat.le_trans hle hf.above
    refine ⟨hf.aligned, by omega, hf.fits, ?_⟩
    intro y hy
    rcases List.mem_cons.mp hy with rfl | hy
    · exact Or.inr hstop
    · exact hf.apart y hy

/-- Where the buffer ends before the first taken extent starts, it keeps apart from all of them. -/
theorem isFree_of_le_head {x : Extent} {taken : List Extent} {size start : Nat}
    (hsorted : Extent.Ascending (x :: taken)) (hal : alignment ∣ start)
    (hfit : start + size < wordLimit) (hle : start + size ≤ x.start) :
    IsFree ((x :: taken).map Extent.span) size start start := by
  refine ⟨hal, Nat.le_refl _, hfit, ?_⟩
  intro y hy
  obtain ⟨z, hz, rfl⟩ := List.mem_map.mp hy
  rcases List.mem_cons.mp hz with rfl | hz
  · exact Or.inl hle
  · exact Or.inl (Nat.le_trans hle ((List.pairwise_cons.mp hsorted).1 z hz))

/-- No address is free when the buffer does not even fit at the start. -/
theorem not_isFree_of_word?_eq_none {taken : List Span} {size start a : Nat}
    (h : word? (start + size) = none) : ¬IsFree taken size start a := by
  intro hf
  have hlt : start + size < wordLimit :=
    Nat.lt_of_le_of_lt (Nat.add_le_add_right hf.above size) hf.fits
  rw [word?, if_pos hlt] at h
  simp at h

theorem firstFit_cons (size start : Nat) (x : Extent) (rest : List Extent) :
    firstFit size start (x :: rest) =
      (word? (start + size)).bind fun stop =>
        if stop ≤ x.start then some start
        else if start < x.stop then (alignUp? x.stop).bind fun next => firstFit size next rest
        else firstFit size start rest := by
  rw [firstFit]
  rfl

/-- The scan finds the lowest free address. -/
theorem firstFit_isLeast {size : Nat} {taken : List Extent} (hsorted : Extent.Ascending taken) :
    ∀ {start a : Nat}, alignment ∣ start → firstFit size start taken = some a →
      IsLeast { b | IsFree (taken.map Extent.span) size start b } a := by
  induction taken with
  | nil =>
    intro start a hal h
    rw [firstFit] at h
    cases hw : word? (start + size) with
    | none => rw [hw] at h; simp at h
    | some stop =>
      rw [hw] at h
      obtain rfl : start = a := by simpa using h
      have hfit := (word?_eq_some_iff.mp hw).1
      exact ⟨isFree_nil.mpr ⟨hal, Nat.le_refl _, hfit⟩, fun b hb => hb.above⟩
  | cons x rest ih =>
    intro start a hal h
    have hrest : Extent.Ascending rest := (List.pairwise_cons.mp hsorted).2
    rw [firstFit_cons] at h
    cases hw : word? (start + size) with
    | none => rw [hw] at h; simp at h
    | some stop =>
      obtain ⟨hfit, rfl⟩ := word?_eq_some_iff.mp hw
      rw [hw, Option.bind_some] at h
      by_cases hle : start + size ≤ x.start
      · -- room in front of `x`, hence in front of everything behind it
        rw [if_pos hle] at h
        obtain rfl := Option.some.inj h
        exact ⟨isFree_of_le_head hsorted hal hfit hle, fun b hb => hb.above⟩
      · rw [if_neg hle] at h
        by_cases hlt : start < x.stop
        · rw [if_pos hlt] at h
          cases hnext : alignUp? x.stop with
          | none => rw [hnext] at h; simp at h
          | some next =>
            rw [hnext, Option.bind_some] at h
            simp only [List.map_cons, isFree_cons_of_blocked (x := x.span) hle hlt hnext]
            exact ih hrest (alignUp?_eq_some hnext).1 h
        · rw [if_neg hlt] at h
          simp only [List.map_cons, isFree_cons_of_stop_le (x := x.span) (Nat.not_lt.mp hlt)]
          exact ih hrest hal h

/-- The scan gives up only when no address is free. -/
theorem firstFit_eq_none {size : Nat} {taken : List Extent} :
    ∀ {start : Nat}, firstFit size start taken = none →
      ∀ a, ¬IsFree (taken.map Extent.span) size start a := by
  induction taken with
  | nil =>
    intro start h a
    rw [firstFit] at h
    cases hw : word? (start + size) with
    | none => exact not_isFree_of_word?_eq_none hw
    | some stop => rw [hw] at h; simp at h
  | cons x rest ih =>
    intro start h a
    rw [firstFit_cons] at h
    cases hw : word? (start + size) with
    | none => exact not_isFree_of_word?_eq_none hw
    | some stop =>
      obtain ⟨-, rfl⟩ := word?_eq_some_iff.mp hw
      rw [hw, Option.bind_some] at h
      by_cases hle : start + size ≤ x.start
      · rw [if_pos hle] at h
        simp at h
      · rw [if_neg hle] at h
        by_cases hlt : start < x.stop
        · rw [if_pos hlt] at h
          cases hnext : alignUp? x.stop with
          | some next =>
            rw [hnext, Option.bind_some] at h
            rw [List.map_cons, isFree_cons_of_blocked (x := x.span) hle hlt hnext]
            exact ih h a
          | none =>
            -- no multiple is left behind `x`, and in front of it there is no room
            intro hf
            rcases hf.apart x.span (List.mem_cons_self ..) with hfront | hbehind
            · exact hle (Nat.le_trans (Nat.add_le_add_right hf.above size) hfront)
            · have := alignUp?_eq_none hnext a hf.aligned hbehind
              have := hf.fits
              omega
        · rw [if_neg hlt] at h
          rw [List.map_cons, isFree_cons_of_stop_le (x := x.span) (Nat.not_lt.mp hlt)]
          exact ih h a

/-- The scan as an equivalence. -/
theorem firstFit_eq_some_iff {size : Nat} {taken : List Extent} (hsorted : Extent.Ascending taken)
    {a : Nat} :
    firstFit size baseAddress taken = some a ↔
      IsLeast { b | IsFree (taken.map Extent.span) size baseAddress b } a := by
  constructor
  · exact firstFit_isLeast hsorted dvd_baseAddress
  · intro hleast
    cases h : firstFit size baseAddress taken with
    | none => exact absurd hleast.1 (firstFit_eq_none h a)
    | some b => rw [(firstFit_isLeast hsorted dvd_baseAddress h).unique hleast]

/-! ## Comparing neighbours -/

namespace Extent

theorem start_le_of_before {x y : Extent} (h : x.before y = true) : x.start ≤ y.start := by
  simp only [before, Bool.or_eq_true, Bool.and_eq_true, beq_iff_eq, decide_eq_true_eq] at h
  omega

theorem stop_le_of_before {x y : Extent} (h : x.before y = true) (he : x.start = y.start) :
    x.stop ≤ y.stop := by
  simp only [before, Bool.or_eq_true, Bool.and_eq_true, beq_iff_eq, decide_eq_true_eq] at h
  omega

theorem before_trans (x y z : Extent) (hxy : x.before y = true) (hyz : y.before z = true) :
    x.before z = true := by
  simp only [before, Bool.or_eq_true, Bool.and_eq_true, beq_iff_eq, decide_eq_true_eq] at *
  omega

theorem before_total (x y : Extent) : (x.before y || y.before x) = true := by
  simp only [before, Bool.or_eq_true, Bool.and_eq_true, beq_iff_eq, decide_eq_true_eq]
  omega

end Extent

/-- In a sorted list it is enough to compare neighbours. -/
theorem firstClash_eq_none_iff {xs : List Extent} (hsorted : xs.Pairwise (·.before · = true))
    (hproper : ∀ x ∈ xs, x.start ≤ x.stop) :
    firstClash xs = none ↔ (xs.map Extent.span).Pairwise Span.Apart := by
  induction xs with
  | nil => simp [firstClash]
  | cons x rest ih =>
    obtain ⟨hx, hrest⟩ := List.pairwise_cons.mp hsorted
    have ih' := ih hrest fun y hy => hproper y (List.mem_cons_of_mem _ hy)
    cases rest with
    | nil => simp [firstClash]
    | cons y rest =>
      have hxy := hx y (List.mem_cons_self ..)
      rw [firstClash, List.map_cons, List.pairwise_cons]
      constructor
      · intro h
        have hle : x.stop ≤ y.start := by
          by_contra hlt
          rw [if_pos (Nat.not_le.mp hlt)] at h
          simp at h
        rw [if_neg (Nat.not_lt.mpr hle)] at h
        refine ⟨?_, ih'.mp h⟩
        intro s hs
        obtain ⟨z, hz, rfl⟩ := List.mem_map.mp hs
        -- `y` starts first among the extents behind `x`
        have hyz : y.start ≤ z.start := by
          rcases List.mem_cons.mp hz with rfl | hz
          · exact Nat.le_refl _
          · exact Extent.start_le_of_before ((List.pairwise_cons.mp hrest).1 z hz)
        exact Or.inl (Nat.le_trans hle hyz)
      · rintro ⟨hhead, htail⟩
        have hle : x.stop ≤ y.start := by
          rcases hhead y.span (List.mem_map_of_mem (List.mem_cons_self ..)) with h | h
          · exact h
          · -- only an empty `y` at the start of `x` can lie in front, and then `x` is empty too
            have h1 : y.stop ≤ x.start := h
            have h2 := hproper y (List.mem_cons_of_mem _ (List.mem_cons_self ..))
            have h3 := Extent.start_le_of_before hxy
            have h4 := Extent.stop_le_of_before hxy (by omega)
            omega
        rw [if_neg (Nat.not_lt.mpr hle)]
        exact ih'.mpr htail

/-! ## Placing operands one after the other -/

theorem mem_insertExtent {x y : Extent} {xs : List Extent} :
    y ∈ insertExtent x xs ↔ y = x ∨ y ∈ xs := by
  induction xs with
  | nil => simp [insertExtent]
  | cons z rest ih =>
    unfold insertExtent
    split
    · simp only [List.mem_cons, ih]
      tauto
    · simp only [List.mem_cons]

theorem ascending_insertExtent {x : Extent} {xs : List Extent} (h : Extent.Ascending xs) :
    Extent.Ascending (insertExtent x xs) := by
  induction xs with
  | nil => simp [insertExtent, Extent.Ascending]
  | cons y rest ih =>
    obtain ⟨hy, hrest⟩ := List.pairwise_cons.mp h
    unfold insertExtent
    split
    · next hlt =>
      refine List.pairwise_cons.mpr ⟨?_, ih hrest⟩
      intro z hz
      rcases mem_insertExtent.mp hz with rfl | hz
      · exact Nat.le_of_lt hlt
      · exact hy z hz
    · next hge =>
      refine List.pairwise_cons.mpr ⟨?_, h⟩
      intro z hz
      rcases List.mem_cons.mp hz with rfl | hz
      · exact Nat.not_lt.mp hge
      · exact Nat.le_trans (Nat.not_lt.mp hge) (hy z hz)

/-- `placed` is `operands` with the lowest free address given to each operand that is settled and
has none, in order. An address that was handed out is taken for those behind. -/
inductive FirstFit : List Span → List Operand → List Operand → Prop where
  | nil (taken : List Span) : FirstFit taken [] []
  | place {taken : List Span} {o : Operand} {c : Contents} {a : Nat} {rest placed : List Operand}
      (hloc : o.location = .floating) (hc : o.contents = some c)
      (hleast : IsLeast { b | IsFree taken c.size baseAddress b } a)
      (hrest : FirstFit (⟨a, a + c.size⟩ :: taken) rest placed) :
      FirstFit taken (o :: rest) ({ o with location := .assigned a } :: placed)
  | keep {taken : List Span} {o : Operand} {rest placed : List Operand}
      (hkeep : o.location ≠ .floating ∨ o.contents = none) (hrest : FirstFit taken rest placed) :
      FirstFit taken (o :: rest) (o :: placed)

theorem isFree_congr {t t' : List Span} (h : ∀ x, x ∈ t ↔ x ∈ t') {size start a : Nat} :
    IsFree t size start a ↔ IsFree t' size start a :=
  ⟨fun hf => ⟨hf.aligned, hf.above, hf.fits, fun x hx => hf.apart x ((h x).mpr hx)⟩,
    fun hf => ⟨hf.aligned, hf.above, hf.fits, fun x hx => hf.apart x ((h x).mp hx)⟩⟩

/-- The order of the taken spans does not matter. -/
theorem FirstFit.congr {t t' : List Span} {os ps : List Operand} (h : FirstFit t os ps)
    (he : ∀ x, x ∈ t ↔ x ∈ t') : FirstFit t' os ps := by
  induction h generalizing t' with
  | nil => exact .nil t'
  | place hloc hc hleast _ ih =>
    refine .place hloc hc ?_ (ih fun x => ?_)
    · simpa only [isFree_congr he] using hleast
    · simp only [List.mem_cons, he x]
  | keep hkeep _ ih => exact .keep hkeep (ih he)

theorem placeFloating_of_keep {taken : List Extent} {o : Operand} {rest : List Operand}
    (h : o.location ≠ .floating ∨ o.contents = none) :
    (placeFloating taken (o :: rest)).value =
      (placeFloating taken rest).value.map (o :: ·) := by
  rw [placeFloating]
  split
  · next hloc hc =>
    rcases h with h | h
    · exact absurd hloc h
    · rw [h] at hc
      simp at hc
  · rfl

theorem placeFloating_of_place {taken : List Extent} {o : Operand} {c : Contents} {a : Nat}
    {rest : List Operand} (hloc : o.location = .floating) (hc : o.contents = some c)
    (ha : firstFit c.size baseAddress taken = some a) :
    (placeFloating taken (o :: rest)).value =
      (placeFloating (insertExtent ⟨a, a + c.size, o.id, o.name⟩ taken) rest).value.map
        ({ o with location := .assigned a } :: ·) := by
  rw [placeFloating]
  simp only [hloc, hc, ha, Logged.value_bind, Logged.value_pure]

theorem placeFloating_of_none {taken : List Extent} {o : Operand} {c : Contents}
    {rest : List Operand} (hloc : o.location = .floating) (hc : o.contents = some c)
    (ha : firstFit c.size baseAddress taken = none) :
    (placeFloating taken (o :: rest)).value = .error (.tooLarge o.name) := by
  rw [placeFloating]
  simp only [hloc, hc, ha, Logged.value_pure]

theorem map_eq_ok_iff {ε α β : Type} {x : Except ε α} {f : α → β} {b : β} :
    x.map f = .ok b ↔ ∃ a, x = .ok a ∧ f a = b := by
  cases x <;> simp [Except.map]

/-- The spans of a list with one more extent. -/
theorem mem_spans_insertExtent {x : Extent} {xs : List Extent} (s : Span) :
    s ∈ (insertExtent x xs).map Extent.span ↔ s ∈ x.span :: xs.map Extent.span := by
  simp only [List.mem_map, List.mem_cons, mem_insertExtent]
  constructor
  · rintro ⟨y, rfl | hy, rfl⟩
    · exact Or.inl rfl
    · exact Or.inr ⟨y, hy, rfl⟩
  · rintro (rfl | ⟨y, hy, rfl⟩)
    · exact ⟨x, Or.inl rfl, rfl⟩
    · exact ⟨y, Or.inr hy, rfl⟩

/-- The pass over the operands gives each its lowest free address. -/
theorem placeFloating_eq_ok_iff {taken : List Extent} (hsorted : Extent.Ascending taken)
    {os ps : List Operand} :
    (placeFloating taken os).value = .ok ps ↔ FirstFit (taken.map Extent.span) os ps := by
  induction os generalizing taken ps with
  | nil =>
    rw [placeFloating, Logged.value_pure]
    constructor
    · intro h
      obtain rfl := Except.ok.inj h
      exact .nil _
    · intro h
      cases h
      rfl
  | cons o rest ih =>
    by_cases hkeep : o.location ≠ .floating ∨ o.contents = none
    · rw [placeFloating_of_keep hkeep, map_eq_ok_iff]
      constructor
      · rintro ⟨qs, hqs, rfl⟩
        exact .keep hkeep ((ih hsorted).mp hqs)
      · intro h
        cases h with
        | keep _ hrest => exact ⟨_, (ih hsorted).mpr hrest, rfl⟩
        | place hloc hc =>
          rcases hkeep with h | h
          · exact absurd hloc h
          · rw [h] at hc
            simp at hc
    · obtain ⟨hloc, hsome⟩ := not_or.mp hkeep
      have hloc : o.location = .floating := not_not.mp hloc
      obtain ⟨c, hc⟩ := Option.ne_none_iff_exists'.mp hsome
      cases ha : firstFit c.size baseAddress taken with
      | none =>
        rw [placeFloating_of_none hloc hc ha]
        constructor
        · intro h
          simp at h
        · intro h
          cases h with
          | keep hk => exact absurd hk hkeep
          | place _ hc' hleast =>
            obtain rfl := Option.some.inj (hc.symm.trans hc')
            exact absurd hleast.1 (firstFit_eq_none ha _)
      | some a =>
        have hins := ascending_insertExtent (x := ⟨a, a + c.size, o.id, o.name⟩) hsorted
        rw [placeFloating_of_place hloc hc ha, map_eq_ok_iff]
        -- the scan keeps the extents sorted, while `FirstFit` only sees what is among them
        constructor
        · rintro ⟨qs, hqs, rfl⟩
          exact .place hloc hc ((firstFit_eq_some_iff hsorted).mp ha)
            (((ih hins).mp hqs).congr mem_spans_insertExtent)
        · intro h
          cases h with
          | keep hk => exact absurd hk hkeep
          | place _ hc' hleast hrest =>
            obtain rfl := Option.some.inj (hc.symm.trans hc')
            obtain rfl := ((firstFit_eq_some_iff hsorted).mp ha).unique hleast
            refine ⟨_, (ih hins).mpr (hrest.congr fun s => ?_), rfl⟩
            exact (mem_spans_insertExtent (x := ⟨a, a + c.size, o.id, o.name⟩) s).symm

/-! ## The whole of placement -/

/-- The addresses that an operand takes, once it is both settled and placed. -/
def Operand.span? (o : Operand) : Option Span :=
  o.extent?.map Extent.span

theorem Operand.span?_eq_some_iff {o : Operand} {s : Span} :
    o.span? = some s ↔ ∃ c a, o.contents = some c ∧ o.location.address? = some a ∧
      s = ⟨a, a + c.size⟩ := by
  unfold Operand.span? Operand.extent?
  cases o.contents with
  | none => simp
  | some c =>
    cases o.location.address? with
    | none => simp
    | some a => simp [Extent.span, eq_comm]

/-- The spans of the operands that have an address, in declaration order. -/
def spansOf (os : List Operand) : List Span :=
  os.filterMap Operand.span?

theorem spansOf_cons (o : Operand) (os : List Operand) :
    spansOf (o :: os) = o.span?.toList ++ spansOf os := by
  unfold spansOf
  rw [List.filterMap_cons]
  cases o.span? <;> rfl

theorem map_span_filterMap (os : List Operand) :
    (os.filterMap Operand.extent?).map Extent.span = spansOf os := by
  unfold spansOf Operand.span?
  rw [List.map_filterMap]

theorem Registry.sorted_extents (r : Registry) : r.extents.Pairwise (·.before · = true) :=
  List.pairwise_mergeSort Extent.before_trans Extent.before_total _

theorem Registry.ascending_extents (r : Registry) : Extent.Ascending r.extents :=
  r.sorted_extents.imp Extent.start_le_of_before

theorem Registry.start_le_stop_of_mem_extents {r : Registry} {x : Extent} (h : x ∈ r.extents) :
    x.start ≤ x.stop := by
  unfold Registry.extents at h
  rw [List.mem_mergeSort, List.mem_filterMap] at h
  obtain ⟨o, -, ho⟩ := h
  have hs : o.span? = some x.span := by rw [Operand.span?, ho]; rfl
  obtain ⟨c, a, -, -, he⟩ := Operand.span?_eq_some_iff.mp hs
  have h1 : x.start = a := congrArg Span.start he
  have h2 : x.stop = a + c.size := congrArg Span.stop he
  omega

theorem Registry.mem_spans_extents (r : Registry) (s : Span) :
    s ∈ r.extents.map Extent.span ↔ s ∈ spansOf r.operands := by
  rw [← map_span_filterMap]
  exact ((List.mergeSort_perm _ _).map Extent.span).mem_iff

/-- No two requested buffers clash exactly when all of them are pairwise apart. -/
theorem Registry.firstClash_extents (r : Registry) :
    firstClash r.extents = none ↔ (spansOf r.operands).Pairwise Span.Apart := by
  rw [firstClash_eq_none_iff r.sorted_extents fun _ => Registry.start_le_stop_of_mem_extents]
  rw [← map_span_filterMap]
  exact ((List.mergeSort_perm _ _).map Extent.span).pairwise_iff Span.Apart.symm

/-- Placement succeeds exactly when requested buffers are pairwise apart and every other settled
buffer, in declaration order, has a free address; it then takes the lowest. -/
theorem Registry.allocate_eq_ok_iff {r r' : Registry} :
    r.allocate.value = .ok r' ↔
      (spansOf r.operands).Pairwise Span.Apart ∧
        FirstFit (spansOf r.operands) r.operands r'.operands := by
  unfold Registry.allocate
  cases hclash : firstClash r.extents with
  | some xy =>
    have hne : ¬(spansOf r.operands).Pairwise Span.Apart := by
      rw [← Registry.firstClash_extents, hclash]
      simp
    simp [hne]
  | none =>
    have hap := r.firstClash_extents.mp hclash
    simp only [Logged.value_bind, Logged.value_pure, map_eq_ok_iff,
      placeFloating_eq_ok_iff r.ascending_extents]
    constructor
    · rintro ⟨ps, hps, rfl⟩
      exact ⟨hap, hps.congr r.mem_spans_extents⟩
    · rintro ⟨-, h⟩
      exact ⟨r'.operands, h.congr fun s => (r.mem_spans_extents s).symm, rfl⟩

/-! ## Whether there is room -/

/-- A settled buffer as placement sees it. -/
structure Buffer where
  /-- Where it is asked to lie. -/
  location : Location
  /-- Its bytes. -/
  size : Nat
  deriving DecidableEq, Repr

namespace Buffer

/-- The addresses of a buffer that has a location. -/
def span? (b : Buffer) : Option Span :=
  b.location.address?.map fun a => ⟨a, a + b.size⟩

/-- The bytes of a buffer that has none. -/
def pending? (b : Buffer) : Option Nat :=
  match b.location with
  | .floating => some b.size
  | _ => none

end Buffer

/-- Buffers of the given sizes find room beside the taken spans, one after the other, each at the
lowest address that the ones in front have left free. -/
def Room : List Span → List Nat → Prop
  | _, [] => True
  | taken, size :: rest =>
    ∃ a, IsLeast { b | IsFree taken size baseAddress b } a ∧ Room (⟨a, a + size⟩ :: taken) rest

/-- Requested buffers keep apart, and there is room for the others. -/
def Placeable (bs : List Buffer) : Prop :=
  (bs.filterMap Buffer.span?).Pairwise Span.Apart ∧
    Room (bs.filterMap Buffer.span?) (bs.filterMap Buffer.pending?)

/-- The settled operands as buffers. -/
def buffersOf (os : List Operand) : List Buffer :=
  os.filterMap fun o => o.contents.map fun c => ⟨o.location, c.size⟩

theorem spansOf_eq (os : List Operand) : spansOf os = (buffersOf os).filterMap Buffer.span? := by
  unfold spansOf buffersOf
  rw [List.filterMap_filterMap]
  congr 1
  funext o
  unfold Operand.span? Operand.extent?
  cases o.contents with
  | none => rfl
  | some c =>
    simp only [Option.map_some, Option.bind_some, Option.bind_eq_bind, Buffer.span?]
    cases o.location.address? <;> rfl

theorem exists_firstFit_iff {os : List Operand} :
    ∀ {t : List Span},
      (∃ ps, FirstFit t os ps) ↔ Room t ((buffersOf os).filterMap Buffer.pending?) := by
  induction os with
  | nil => exact fun {t} => ⟨fun _ => trivial, fun _ => ⟨[], .nil t⟩⟩
  | cons o rest ih =>
    intro t
    by_cases hkeep : o.location ≠ .floating ∨ o.contents = none
    · -- nothing is asked for `o`
      have hskip : (buffersOf (o :: rest)).filterMap Buffer.pending? =
          (buffersOf rest).filterMap Buffer.pending? := by
        unfold buffersOf
        rw [List.filterMap_cons]
        cases hc : o.contents with
        | none => rfl
        | some c =>
          have hloc : o.location ≠ .floating := by
            rcases hkeep with h | h
            · exact h
            · rw [hc] at h
              simp at h
          have hp : Buffer.pending? ⟨o.location, c.size⟩ = none := by
            unfold Buffer.pending?
            split
            · next h => exact absurd h hloc
            · rfl
          simp [hp]
      rw [hskip, ← ih]
      constructor
      · rintro ⟨ps, h⟩
        cases h with
        | keep _ hrest => exact ⟨_, hrest⟩
        | place hloc hc =>
          rcases hkeep with h | h
          · exact absurd hloc h
          · rw [hc] at h
            simp at h
      · rintro ⟨ps, h⟩
        exact ⟨_, .keep hkeep h⟩
    · obtain ⟨hloc, hsome⟩ := not_or.mp hkeep
      have hloc : o.location = .floating := not_not.mp hloc
      obtain ⟨c, hc⟩ := Option.ne_none_iff_exists'.mp hsome
      have hask : (buffersOf (o :: rest)).filterMap Buffer.pending? =
          c.size :: (buffersOf rest).filterMap Buffer.pending? := by
        unfold buffersOf
        rw [List.filterMap_cons]
        simp [hc, hloc, Buffer.pending?]
      rw [hask, Room]
      constructor
      · rintro ⟨ps, h⟩
        cases h with
        | keep hk => exact absurd hk hkeep
        | place _ hc' hleast hrest =>
          obtain rfl := Option.some.inj (hc.symm.trans hc')
          exact ⟨_, hleast, ih.mp ⟨_, hrest⟩⟩
      · rintro ⟨a, hleast, hroom⟩
        obtain ⟨ps, hps⟩ := ih.mpr hroom
        exact ⟨_, .place hloc hc hleast hps⟩

/-- Whether placement succeeds is a matter of the settled buffers alone. -/
theorem Registry.exists_allocate_iff {r : Registry} :
    (∃ r', r.allocate.value = .ok r') ↔ Placeable (buffersOf r.operands) := by
  unfold Placeable
  simp only [Registry.allocate_eq_ok_iff]
  rw [← spansOf_eq, ← exists_firstFit_iff]
  constructor
  · rintro ⟨r', hap, hfit⟩
    exact ⟨hap, _, hfit⟩
  · rintro ⟨hap, ps, hfit⟩
    exact ⟨⟨ps⟩, hap, hfit⟩

/-! ## What placement leaves -/

/-- What placement does to one operand: nothing, or it hands out an address. -/
def Placed (o o' : Operand) : Prop :=
  ((o.location ≠ .floating ∨ o.contents = none) ∧ o' = o) ∨
    ∃ c a, o.location = .floating ∧ o.contents = some c ∧ alignment ∣ a ∧ baseAddress ≤ a ∧
      a + c.size < wordLimit ∧ o' = { o with location := .assigned a }

theorem FirstFit.placed {t : List Span} {os ps : List Operand} (h : FirstFit t os ps) :
    List.Forall₂ Placed os ps := by
  induction h with
  | nil => exact .nil
  | place hloc hc hleast _ ih =>
    have hf := hleast.1
    exact .cons (Or.inr ⟨_, _, hloc, hc, hf.aligned, hf.above, hf.fits, rfl⟩) ih
  | keep hkeep _ ih => exact .cons (Or.inl ⟨hkeep, rfl⟩) ih

/-- Buffers that were apart stay so, and a new one keeps apart from all that was taken. -/
theorem FirstFit.apart {t : List Span} {os ps : List Operand} (h : FirstFit t os ps)
    (hsub : ∀ s ∈ spansOf os, s ∈ t) (hap : (spansOf os).Pairwise Span.Apart) :
    (spansOf ps).Pairwise Span.Apart ∧
      ∀ s ∈ spansOf ps, s ∈ spansOf os ∨ ∀ x ∈ t, s.Apart x := by
  induction h with
  | nil => simp [spansOf]
  | @place t o c a rest placed hloc hc hleast _ ih =>
    -- the new span is apart from all of `t`, and is taken itself from here on
    have hnone : o.span? = none := by
      unfold Operand.span? Operand.extent?
      rw [hc, hloc]
      rfl
    have hnew : ({ o with location := .assigned a } : Operand).span? = some ⟨a, a + c.size⟩ :=
      Operand.span?_eq_some_iff.mpr ⟨c, a, hc, rfl, rfl⟩
    rw [spansOf_cons, hnone] at hsub hap
    rw [spansOf_cons, spansOf_cons, hnone, hnew]
    simp only [Option.toList_none, Option.toList_some, List.nil_append,
      List.cons_append] at hsub hap ⊢
    obtain ⟨hpair, hmem⟩ := ih (fun s hs => List.mem_cons_of_mem _ (hsub s hs)) hap
    refine ⟨List.pairwise_cons.mpr ⟨?_, hpair⟩, ?_⟩
    · intro s hs
      rcases hmem s hs with hold | hall
      · exact hleast.1.apart s (hsub s hold)
      · exact (hall _ (List.mem_cons_self ..)).symm
    · intro s hs
      rcases List.mem_cons.mp hs with rfl | hs
      · exact Or.inr fun x hx => hleast.1.apart x hx
      · rcases hmem s hs with hold | hall
        · exact Or.inl hold
        · exact Or.inr fun x hx => hall x (List.mem_cons_of_mem _ hx)
  | @keep t o rest placed _ _ ih =>
    rw [spansOf_cons] at hsub hap
    rw [spansOf_cons, spansOf_cons]
    have hrest := List.pairwise_append.mp hap
    obtain ⟨hpair, hmem⟩ :=
      ih (fun s hs => hsub s (List.mem_append_right _ hs)) hrest.2.1
    refine ⟨List.pairwise_append.mpr ⟨hrest.1, hpair, ?_⟩, ?_⟩
    · intro x hx s hs
      rcases hmem s hs with hold | hall
      · exact hrest.2.2 x hx s hold
      · exact (hall x (hsub x (List.mem_append_left _ hx))).symm
    · intro s hs
      rcases List.mem_append.mp hs with hs | hs
      · exact Or.inl (List.mem_append_left _ hs)
      · exact (hmem s hs).imp_left (List.mem_append_right _)

/-- After placement all buffers that have an address are pairwise apart. -/
theorem Registry.pairwise_apart_of_allocate {r r' : Registry} (h : r.allocate.value = .ok r') :
    (spansOf r'.operands).Pairwise Span.Apart := by
  obtain ⟨hap, hfit⟩ := Registry.allocate_eq_ok_iff.mp h
  exact (hfit.apart (fun _ hs => hs) hap).1

end TileFusion
