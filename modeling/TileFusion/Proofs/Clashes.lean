import TileFusion.Proofs.LowestPlaces
import Mathlib.Data.List.Permutation

/-!
# Clashes of pinned buffers

Placement first looks for pinned buffers that share memory. It sorts them and compares each one with
the next only. `FirstFit` says that nothing is found exactly when all of them are apart; this file
says what is found otherwise:

> `allocate_reports_clashes`: the report is made exactly when two pinned buffers clash, and it names
> such a pair: the first buffer in the order that reaches into one in front of it, and that one.

Buffers may lie inside each other, touch, start together or hold no bytes. A buffer of no bytes
clashes where it lies strictly inside another one, and nowhere else.
-/

namespace TileFusion

/-! ## The first clash of a sorted list -/

namespace Extent

variable {x y z : Extent}

/-- `x` stands in front of `y` when extents of different owners are sorted. -/
def Ahead (x y : Extent) : Prop :=
  x.before y = true ∧ x.owner ≠ y.owner

theorem Ahead.asymm (h : x.Ahead y) : ¬y.Ahead x := by
  intro h'
  have hxy := h.1
  have hyx := h'.1
  simp only [before, Bool.or_eq_true, Bool.and_eq_true, beq_iff_eq, decide_eq_true_eq] at hxy hyx
  exact h.2 (by omega)

theorem not_ahead_self (x : Extent) : ¬x.Ahead x :=
  fun h => h.2 rfl

/-- Where the later of two sorted extents starts before the other ends, they share memory: if it
holds no bytes and starts where the other does, the order puts it in front. -/
theorem not_apart_of_ahead (h : x.Ahead y) (hy : y.start ≤ y.stop) (hlt : y.start < x.stop) :
    ¬x.span.Apart y.span := by
  have hstart := start_le_of_before h.1
  have hstop := stop_le_of_before h.1
  simp only [Span.Apart, span, not_or, Nat.not_le]
  omega

/-- Of three extents in order, two that reach into the third reach into each other. -/
theorem not_apart_of_both (hxy : x.Ahead y) (hyz : y.Ahead z) (hxz : ¬x.span.Apart z.span)
    (hyz' : ¬y.span.Apart z.span) : ¬x.span.Apart y.span := by
  have h1 := start_le_of_before hxy.1
  have h2 := start_le_of_before hyz.1
  simp only [Span.Apart, span, not_or, Nat.not_le] at hxz hyz' ⊢
  omega

end Extent

/-- The first clash in terms of the order alone: `y` is the first extent that shares memory with one
in front of it, and `x` is that one. -/
structure FirstClash (xs : List Extent) (x y : Extent) : Prop where
  left : x ∈ xs
  right : y ∈ xs
  ahead : x.Ahead y
  clash : ¬x.span.Apart y.span
  first : ∀ u ∈ xs, ∀ v ∈ xs, u.Ahead v → ¬u.span.Apart v.span → ¬v.Ahead y

section FirstClash

variable {xs : List Extent} {x y : Extent} (hsorted : xs.Pairwise Extent.Ahead)
include hsorted

theorem firstClash_of_some (hproper : ∀ z ∈ xs, z.start ≤ z.stop)
    (h : firstClash xs = some (x, y)) : FirstClash xs x y := by
  induction xs with
  | nil => simp [firstClash] at h
  | cons u rest ih =>
    obtain ⟨hu, hrest⟩ := List.pairwise_cons.mp hsorted
    -- nothing stands in front of the head
    have hhead : ∀ a ∈ u :: rest, ¬a.Ahead u := by
      intro a ha hau
      rcases List.mem_cons.mp ha with rfl | ha
      · exact Extent.not_ahead_self a hau
      · exact (hu a ha).asymm hau
    cases rest with
    | nil => simp [firstClash] at h
    | cons v rest =>
      have huv := hu v (List.mem_cons_self ..)
      have hv := hproper v (List.mem_cons_of_mem _ (List.mem_cons_self ..))
      rw [firstClash] at h
      by_cases hlt : v.start < u.stop
      · rw [if_pos hlt] at h
        obtain ⟨rfl, rfl⟩ := Prod.mk.inj (Option.some.inj h)
        refine ⟨by simp, by simp, huv, Extent.not_apart_of_ahead huv hv hlt, ?_⟩
        intro a ha b hb hab _ hbv
        rcases List.mem_cons.mp hb with rfl | hb
        · exact hhead a ha hab
        · rcases List.mem_cons.mp hb with rfl | hb
          · exact Extent.not_ahead_self b hbv
          · exact ((List.pairwise_cons.mp hrest).1 b hb).asymm hbv
      · rw [if_neg hlt] at h
        have hfirst := ih hrest (fun z hz => hproper z (List.mem_cons_of_mem _ hz)) h
        refine ⟨List.mem_cons_of_mem _ hfirst.left, List.mem_cons_of_mem _ hfirst.right,
          hfirst.ahead, hfirst.clash, ?_⟩
        intro a ha b hb hab hclash
        rcases List.mem_cons.mp hb with rfl | hbrest
        · exact absurd hab (hhead a ha)
        rcases List.mem_cons.mp ha with rfl | harest
        · -- the head ends before the next extent starts, so it is apart from all others
          have hvb : v.start ≤ b.start := by
            rcases List.mem_cons.mp hbrest with rfl | hbrest
            · exact Nat.le_refl _
            · exact Extent.start_le_of_before ((List.pairwise_cons.mp hrest).1 b hbrest).1
          exact absurd (.inl (Nat.le_trans (Nat.not_lt.mp hlt) hvb)) hclash
        · exact hfirst.first a harest b hbrest hab hclash

/-- Different extents of the list are in order one way or the other. -/
theorem eq_of_not_ahead {u v : Extent} (hu : u ∈ xs) (hv : v ∈ xs) (huv : ¬u.Ahead v)
    (hvu : ¬v.Ahead u) : u = v := by
  have hsymm : Std.Symm fun a b : Extent => a.Ahead b ∨ b.Ahead a := ⟨fun _ _ h => h.symm⟩
  have hordered : xs.Pairwise fun a b => a.Ahead b ∨ b.Ahead a := hsorted.imp fun h => Or.inl h
  by_contra hne
  rcases hordered.forall hu hv hne with h | h
  · exact huv h
  · exact hvu h

/-- There is one first clash at most. -/
theorem FirstClash.unique {x' y' : Extent} (h : FirstClash xs x y) (h' : FirstClash xs x' y') :
    x = x' ∧ y = y' := by
  obtain rfl : y = y' := eq_of_not_ahead hsorted h.right h'.right
    (h'.first x h.left y h.right h.ahead h.clash) (h.first x' h'.left y' h'.right h'.ahead h'.clash)
  refine ⟨eq_of_not_ahead hsorted h.left h'.left ?_ ?_, rfl⟩
  · intro hxx
    exact h.first x h.left x' h'.left hxx
      (Extent.not_apart_of_both hxx h'.ahead h.clash h'.clash) h'.ahead
  · intro hxx
    exact h.first x' h'.left x h.left hxx
      (Extent.not_apart_of_both hxx h.ahead h'.clash h.clash) h.ahead

end FirstClash

/-! ## Pinned operands -/

namespace Operand

/-- Settled, at an address that its caller asked for. -/
def IsPinned (o : Operand) : Prop :=
  o.isResolved = true ∧ ∃ a, o.location = .pinned a

/-- The memory of an operand, for its owner. -/
def extent (o : Operand) : Extent :=
  ⟨o.address, o.address + o.size, o.id, o.name⟩

/-- Two pinned buffers, each of which starts before the other one ends. -/
structure Clashes (x y : Operand) : Prop where
  different : x ≠ y
  pinned_left : x.IsPinned
  pinned_right : y.IsPinned
  left : x.address < y.address + y.size
  right : y.address < x.address + x.size

theorem not_apart_extent_iff {x y : Operand} :
    ¬x.extent.span.Apart y.extent.span ↔
      x.address < y.address + y.size ∧ y.address < x.address + x.size := by
  simp only [Span.Apart, Extent.span, extent, not_or, Nat.not_le]
  exact and_comm

theorem extent?_eq_some_iff {o : Operand} {e : Extent} (hun : ∀ a, o.location ≠ .assigned a) :
    o.extent? = some e ↔ o.IsPinned ∧ o.extent = e := by
  unfold extent? IsPinned extent address size isResolved
  cases o.contents with
  | none => simp
  | some c =>
    cases hloc : o.location with
    | floating => simp [Location.address?]
    | pinned a => simp [Location.address?]
    | assigned a => exact absurd hloc (hun a)

end Operand

namespace Registry

variable {r : Registry}

theorem WellFormed.mem_extents (hr : r.WellFormed) {e : Extent} :
    e ∈ r.extents ↔ ∃ o ∈ r.operands, o.IsPinned ∧ o.extent = e := by
  rw [extents, List.mem_mergeSort, List.mem_filterMap]
  constructor
  · intro h
    obtain ⟨o, ho, he⟩ := h
    exact ⟨o, ho, (Operand.extent?_eq_some_iff (hr.sound o ho).unassigned).mp he⟩
  · intro h
    obtain ⟨o, ho, he⟩ := h
    exact ⟨o, ho, (Operand.extent?_eq_some_iff (hr.sound o ho).unassigned).mpr he⟩

/-- Owners are different, so the sorted extents have one order. -/
theorem WellFormed.pairwise_ahead (hr : r.WellFormed) : r.extents.Pairwise Extent.Ahead := by
  have hids : r.operands.Pairwise fun x y => x.id ≠ y.id := by
    rw [List.pairwise_iff_getElem]
    intro i j hi hj hij
    rw [hr.ids i _ (List.getElem?_eq_getElem hi), hr.ids j _ (List.getElem?_eq_getElem hj)]
    exact Nat.ne_of_lt hij
  have howner : ∀ {o : Operand} {e : Extent}, o.extent? = some e → e.owner = o.id := by
    intro o e h
    unfold Operand.extent? at h
    obtain ⟨c, -, h⟩ := Option.bind_eq_some_iff.mp h
    obtain ⟨a, -, h⟩ := Option.bind_eq_some_iff.mp h
    rw [← Option.some.inj h]
  have howners : r.extents.Pairwise fun x y => x.owner ≠ y.owner := by
    rw [extents, (List.mergeSort_perm _ _).pairwise_iff fun h => Ne.symm h,
      List.pairwise_filterMap]
    refine hids.imp fun hne x hx y hy => ?_
    rwa [howner hx, howner hy]
  exact r.sorted_extents.and howners

end Registry

theorem Operand.clashes_iff_of_ahead {x y : Operand} (h : x.extent.Ahead y.extent) :
    x.Clashes y ↔ x.IsPinned ∧ y.IsPinned ∧ ¬x.extent.span.Apart y.extent.span := by
  rw [Operand.not_apart_extent_iff]
  constructor
  · intro hc
    exact ⟨hc.pinned_left, hc.pinned_right, hc.left, hc.right⟩
  · intro hc
    obtain ⟨hx, hy, hleft, hright⟩ := hc
    exact ⟨fun he => h.2 (by rw [he]), hx, hy, hleft, hright⟩

namespace Registry

variable {r : Registry}

/-- Where two operands clash, the scan does not come to its end. -/
theorem WellFormed.exists_firstClash (hr : r.WellFormed) {x y : Operand} (hx : x ∈ r.operands)
    (hy : y ∈ r.operands) (h : x.Clashes y) : ∃ e f, firstClash r.extents = some (e, f) := by
  cases hscan : firstClash r.extents with
  | some ef => exact ⟨ef.1, ef.2, rfl⟩
  | none =>
    rw [firstClash_eq_none_iff r.sorted_extents fun _ => start_le_stop_of_mem_extents,
      List.pairwise_map] at hscan
    have hsymm : Std.Symm fun a b : Extent => a.span.Apart b.span := ⟨fun _ _ h => h.symm⟩
    have hne : x.extent ≠ y.extent :=
      fun he => h.different (hr.eq_of_id hx hy (congrArg Extent.owner he))
    have hapart := hscan.forall (hr.mem_extents.mpr ⟨x, hx, h.pinned_left, rfl⟩)
      (hr.mem_extents.mpr ⟨y, hy, h.pinned_right, rfl⟩) hne
    exact absurd hapart (Operand.not_apart_extent_iff.mpr ⟨h.left, h.right⟩)

/-- The first clash of the extents, said of the operands. -/
theorem WellFormed.firstClash_extents_iff (hr : r.WellFormed) {e f : Extent} :
    firstClash r.extents = some (e, f) ↔
      ∃ x ∈ r.operands, ∃ y ∈ r.operands, x.extent = e ∧ y.extent = f ∧ x.Clashes y ∧
        x.extent.Ahead y.extent ∧
        ∀ u ∈ r.operands, ∀ v ∈ r.operands, u.Clashes v → u.extent.Ahead v.extent →
          ¬v.extent.Ahead y.extent := by
  have hsorted := hr.pairwise_ahead
  have hproper := fun z (hz : z ∈ r.extents) => Registry.start_le_stop_of_mem_extents hz
  have hmem : ∀ {o : Operand}, o ∈ r.operands → o.IsPinned → o.extent ∈ r.extents :=
    fun ho hpin => hr.mem_extents.mpr ⟨_, ho, hpin, rfl⟩
  constructor
  · intro h
    have hfirst := firstClash_of_some hsorted hproper h
    obtain ⟨x, hx, hxpin, rfl⟩ := hr.mem_extents.mp hfirst.left
    obtain ⟨y, hy, hypin, rfl⟩ := hr.mem_extents.mp hfirst.right
    refine ⟨x, hx, y, hy, rfl, rfl,
      (Operand.clashes_iff_of_ahead hfirst.ahead).mpr ⟨hxpin, hypin, hfirst.clash⟩,
      hfirst.ahead, ?_⟩
    intro u hu v hv hclash hahead
    obtain ⟨hupin, hvpin, hapart⟩ := (Operand.clashes_iff_of_ahead hahead).mp hclash
    exact hfirst.first _ (hmem hu hupin) _ (hmem hv hvpin) hahead hapart
  · intro h
    obtain ⟨x, hx, y, hy, rfl, rfl, hclash, hahead, hleast⟩ := h
    obtain ⟨hxpin, hypin, hapart⟩ := (Operand.clashes_iff_of_ahead hahead).mp hclash
    have hfirst : FirstClash r.extents x.extent y.extent := by
      refine ⟨hmem hx hxpin, hmem hy hypin, hahead, hapart, ?_⟩
      intro e he f hf hef hclash'
      obtain ⟨u, hu, hupin, rfl⟩ := hr.mem_extents.mp he
      obtain ⟨v, hv, hvpin, rfl⟩ := hr.mem_extents.mp hf
      exact hleast u hu v hv ((Operand.clashes_iff_of_ahead hef).mpr ⟨hupin, hvpin, hclash'⟩) hef
    -- the scan finds some clash, and there is one first clash only
    obtain ⟨e, f, hscan⟩ := hr.exists_firstClash hx hy hclash
    obtain ⟨rfl, rfl⟩ := (firstClash_of_some hsorted hproper hscan).unique hsorted hfirst
    exact hscan

/-- **Clashes are reported exactly.** Placement reports an overlap exactly when two pinned buffers
clash, whatever their number, and whether they are nested, touch, start together or hold no bytes.
The two buffers it names clash: in the order of addresses, ends and declarations the first one is
the first buffer of all that clashes with one in front of it, and the other is that one. -/
theorem allocate_reports_clashes {r : Registry} (hr : r.Reached) :
    ((∃ name other, r.allocate.value = .error (.overlap name other)) ↔
      ∃ x ∈ r.operands, ∃ y ∈ r.operands, x.Clashes y) ∧
    ∀ name other, r.allocate.value = .error (.overlap name other) ↔
      ∃ x y, r.find? other = some x ∧ r.find? name = some y ∧ x.Clashes y ∧
        x.extent.Ahead y.extent ∧
        ∀ u ∈ r.operands, ∀ v ∈ r.operands, u.Clashes v → u.extent.Ahead v.extent →
          ¬v.extent.Ahead y.extent := by
  have hwf := hr.wellFormed
  have hreport : ∀ name other, r.allocate.value = .error (.overlap name other) ↔
      ∃ e f, firstClash r.extents = some (e, f) ∧ name = f.name ∧ other = e.name := by
    intro name other
    rw [hwf.allocate_eq_error_iff]
    simp
  constructor
  · constructor
    · intro h
      obtain ⟨name, other, h⟩ := h
      obtain ⟨e, f, hscan, -⟩ := (hreport name other).mp h
      obtain ⟨x, hx, y, hy, -, -, hclash, -⟩ := hwf.firstClash_extents_iff.mp hscan
      exact ⟨x, hx, y, hy, hclash⟩
    · intro h
      obtain ⟨x, hx, y, hy, hclash⟩ := h
      obtain ⟨e, f, hscan⟩ := hwf.exists_firstClash hx hy hclash
      exact ⟨f.name, e.name, (hreport _ _).mpr ⟨e, f, hscan, rfl, rfl⟩⟩
  · intro name other
    rw [hreport]
    constructor
    · intro h
      obtain ⟨e, f, hscan, rfl, rfl⟩ := h
      obtain ⟨x, hx, y, hy, rfl, rfl, hrest⟩ := hwf.firstClash_extents_iff.mp hscan
      exact ⟨x, y, hwf.find?_name hx, hwf.find?_name hy, hrest⟩
    · intro h
      obtain ⟨x, y, hx, hy, hrest⟩ := h
      refine ⟨x.extent, y.extent, hwf.firstClash_extents_iff.mpr
        ⟨x, mem_of_find? hx, y, mem_of_find? hy, rfl, rfl, hrest⟩, ?_, ?_⟩
      · exact (name_of_find? hy).symm
      · exact (name_of_find? hx).symm

end Registry

/-! ## Nested buffers

`wide` takes the addresses from 4096 to 12288. `edge` starts where it ends and `point` is an empty
buffer where it starts, so that neither clashes; `inner` lies inside it and is declared first. -/

/-- Four pinned buffers, of which two clash. -/
def nestedRegistry : Registry :=
  ⟨[⟨0, "inner", .input, none, .pinned 5000, some ⟨⟨32, 32⟩, .float16b, 1, 2048⟩⟩,
    ⟨1, "edge", .input, none, .pinned 12288, some ⟨⟨32, 32⟩, .float16b, 1, 2048⟩⟩,
    ⟨2, "wide", .input, none, .pinned 4096, some ⟨⟨64, 64⟩, .float16b, 4, 8192⟩⟩,
    ⟨3, "point", .input, none, .pinned 4096, some ⟨⟨0, 0⟩, .float16b, 0, 0⟩⟩]⟩

theorem reached_nestedRegistry : nestedRegistry.Reached := by
  have hinner : Registry.Reached ⟨nestedRegistry.operands.take 1⟩ :=
    .input "inner" ⟨32, 32⟩ .float16b (some 5000) .empty rfl
  have hedge : Registry.Reached ⟨nestedRegistry.operands.take 2⟩ :=
    .input "edge" ⟨32, 32⟩ .float16b (some 12288) hinner rfl
  have hwide : Registry.Reached ⟨nestedRegistry.operands.take 3⟩ :=
    .input "wide" ⟨64, 64⟩ .float16b (some 4096) hedge rfl
  exact .input "point" ⟨0, 0⟩ .float16b (some 4096) hwide rfl

/-- The nested buffer is reported, and it does clash with the one around it. -/
theorem allocate_reports_clashes_nested :
    nestedRegistry.allocate.value = .error (.overlap "inner" "wide") ∧
    ∃ x y, nestedRegistry.find? "wide" = some x ∧ nestedRegistry.find? "inner" = some y ∧
      x.Clashes y := by
  have hreport : nestedRegistry.allocate.value = .error (.overlap "inner" "wide") := by cbv
  obtain ⟨x, y, hx, hy, hclash, -⟩ :=
    ((Registry.allocate_reports_clashes reached_nestedRegistry).2 "inner" "wide").mp hreport
  exact ⟨hreport, x, y, hx, hy, hclash⟩

end TileFusion
