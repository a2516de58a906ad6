import TileFusion.Proofs.FirstFit
import TileFusion.Proofs.Registries

/-!
# The lowest place of every buffer

`FirstFit` describes placement by recursion, as the code runs it. Here it is described by place: what
stands at place `k` afterwards depends on the buffers that callers pinned, wherever they were
declared, and on the addresses handed out at places below `k`.

> `allocate_is_first_fit`: where no two pinned buffers clash, placement succeeds with a result
> exactly when that gives every buffer without an address the least one left, and it fails exactly
> at the first buffer for which no address is left.

The registries meant are `Registry.Reached`: any mixture of declarations and settled contents, in
any order, and no placement yet.
-/

namespace TileFusion

/-! ## Registries before placement -/

/-- The registries that declarations and settled contents lead to, in any order. Calls that fail
leave the registry as it was. -/
inductive Registry.Reached : Registry → Prop where
  | empty : Reached Registry.empty
  | input {r r' : Registry} {o : Operand} (name : String) (dims : Dims) (format : DataFormat)
      (address : Option Nat) (h : Reached r)
      (hd : (r.declareInput name dims format address).value = .ok (r', o)) : Reached r'
  | output {r r' : Registry} {o : Operand} (role : Role) (name : String) (producer : Nat)
      (address : Option Nat) (h : Reached r) (hrole : role = .intermediate ∨ role = .output)
      (hd : r.declareOutput role name producer address = .ok (r', o)) : Reached r'
  | resolve {r r' : Registry} {o : Operand} (dims : Dims) (format : DataFormat) (h : Reached r)
      (ho : o ∈ r.operands) (hs : (r.resolve o dims format).value = .ok r') : Reached r'

theorem Registry.resolve_eq_ok {r r' : Registry} {o : Operand} {d : Dims} {f : DataFormat}
    (h : (r.resolve o d f).value = .ok r') :
    ∃ o', o.resolve? d f = some o' ∧ r' = r.modify o.id fun _ => o' := by
  unfold Registry.resolve at h
  split at h
  · simp at h
  · next o' ho' =>
    simp only [Logged.value_bind, Logged.value_pure, Except.ok.injEq] at h
    exact ⟨o', ho', h.symm⟩

theorem Registry.Reached.wellFormed {r : Registry} (h : r.Reached) : r.WellFormed := by
  induction h with
  | empty => exact Registry.wellFormed_empty
  | input _ _ _ _ _ hd ih => exact Registry.wellFormed_declareInput ih hd
  | output _ _ _ _ _ hrole hd ih => exact Registry.wellFormed_declareOutput ih hrole hd
  | resolve d f _ ho hs ih =>
    obtain ⟨o', hres, rfl⟩ := Registry.resolve_eq_ok hs
    obtain ⟨c, hc, hp, rfl⟩ := Operand.resolve?_eq_some_iff.mp hres
    exact Registry.wellFormed_modify ih ho rfl rfl
      (sound_settled (ih.sound _ ho).unassigned hc hp)

/-! ## Who took which addresses -/

/-- The addresses of a settled buffer that lies where its caller asked. -/
def Operand.pinnedSpan? (o : Operand) : Option Span :=
  match o.location, o.contents with
  | .pinned a, some c => some ⟨a, a + c.size⟩
  | _, _ => none

/-- The addresses of a settled buffer that placement found. -/
def Operand.assignedSpan? (o : Operand) : Option Span :=
  match o.location, o.contents with
  | .assigned a, some c => some ⟨a, a + c.size⟩
  | _, _ => none

/-- The addresses of pinned buffers. -/
def pinnedSpans (os : List Operand) : List Span :=
  os.filterMap Operand.pinnedSpan?

/-- The addresses that placement has handed out. -/
def assignedSpans (os : List Operand) : List Span :=
  os.filterMap Operand.assignedSpan?

theorem assignedSpans_cons (o : Operand) (os : List Operand) :
    assignedSpans (o :: os) = o.assignedSpan?.toList ++ assignedSpans os := by
  unfold assignedSpans
  rw [List.filterMap_cons]
  cases o.assignedSpan? <;> rfl

theorem Operand.assignedSpan?_eq_none {o : Operand} (h : ∀ a, o.location ≠ .assigned a) :
    o.assignedSpan? = none := by
  unfold Operand.assignedSpan?
  split
  · next a _ hloc _ => exact absurd hloc (h a)
  · rfl

/-- Before placement all the memory taken is pinned. -/
theorem spansOf_eq_pinnedSpans {os : List Operand}
    (hun : ∀ o ∈ os, ∀ a, o.location ≠ .assigned a) : spansOf os = pinnedSpans os := by
  refine List.filterMap_congr fun o ho => ?_
  unfold Operand.span? Operand.extent? Operand.pinnedSpan?
  cases hloc : o.location with
  | floating => cases o.contents <;> rfl
  | pinned a => cases o.contents <;> rfl
  | assigned a => exact absurd hloc (hun o ho a)

/-! ## Placement by place -/

/-- What placement makes of one operand, beside the spans taken before. -/
structure Operand.PlacedBeside (taken : List Span) (o p : Operand) : Prop where
  /-- An operand that has an address, or whose size is unknown, is left alone. -/
  kept : o.location ≠ .floating ∨ o.contents = none → p = o
  /-- Any other gets the least free address. -/
  lowest : ∀ c, o.location = .floating → o.contents = some c →
    ∃ a, p = { o with location := .assigned a } ∧
      IsLeast { b | IsFree taken c.size baseAddress b } a

/-- Every operand is placed beside the pinned buffers and the ones placed at earlier places. -/
structure LowestPlaces (pinned : List Span) (os ps : List Operand) : Prop where
  /-- No operand is added or dropped. -/
  length_eq : ps.length = os.length
  /-- Each one is placed beside what was taken before its turn. -/
  each : ∀ (k : Nat) (o p : Operand), os[k]? = some o → ps[k]? = some p →
    o.PlacedBeside (pinned ++ assignedSpans (ps.take k)) p

/-- The first operand for which no address is left. -/
def FirstWithout (pinned : List Span) (os : List Operand) (o : Operand) : Prop :=
  ∃ (k : Nat) (c : Contents) (ps : List Operand),
    os[k]? = some o ∧ o.location = .floating ∧ o.contents = some c ∧
      LowestPlaces pinned (os.take k) ps ∧
      ∀ a, ¬IsFree (pinned ++ assignedSpans ps) c.size baseAddress a

theorem Operand.PlacedBeside.congr {t t' : List Span} {o p : Operand} (h : o.PlacedBeside t p)
    (he : ∀ x, x ∈ t ↔ x ∈ t') : o.PlacedBeside t' p := by
  refine ⟨h.kept, fun c hloc hc => ?_⟩
  obtain ⟨a, hp, hleast⟩ := h.lowest c hloc hc
  exact ⟨a, hp, by simpa only [isFree_congr he] using hleast⟩

theorem Operand.placedBeside_of_keep {t : List Span} {o p : Operand}
    (hkeep : o.location ≠ .floating ∨ o.contents = none) : o.PlacedBeside t p ↔ p = o := by
  constructor
  · intro h
    exact h.kept hkeep
  · intro h
    refine ⟨fun _ => h, fun c hloc hc => ?_⟩
    rcases hkeep with hk | hk
    · exact absurd hloc hk
    · rw [hk] at hc
      simp at hc

theorem Operand.placedBeside_of_place {t : List Span} {o p : Operand} {c : Contents}
    (hloc : o.location = .floating) (hc : o.contents = some c) :
    o.PlacedBeside t p ↔ ∃ a, p = { o with location := .assigned a } ∧
      IsLeast { b | IsFree t c.size baseAddress b } a := by
  constructor
  · intro h
    exact h.lowest c hloc hc
  · intro h
    refine ⟨fun hkeep => ?_, fun c' _ hc' => ?_⟩
    · rcases hkeep with hk | hk
      · exact absurd hloc hk
      · rw [hk] at hc
        simp at hc
    · obtain rfl := Option.some.inj (hc.symm.trans hc')
      exact h

theorem LowestPlaces.congr {t t' : List Span} {os ps : List Operand} (h : LowestPlaces t os ps)
    (he : ∀ x, x ∈ t ↔ x ∈ t') : LowestPlaces t' os ps := by
  refine ⟨h.length_eq, fun k o p ho hp => (h.each k o p ho hp).congr fun x => ?_⟩
  simp only [List.mem_append, he x]

theorem FirstWithout.congr {t t' : List Span} {os : List Operand} {o : Operand}
    (h : FirstWithout t os o) (he : ∀ x, x ∈ t ↔ x ∈ t') : FirstWithout t' os o := by
  obtain ⟨k, c, ps, ho, hloc, hc, hps, hnone⟩ := h
  refine ⟨k, c, ps, ho, hloc, hc, hps.congr he, fun a hf => hnone a ((isFree_congr ?_).mpr hf)⟩
  intro x
  simp only [List.mem_append, he x]

/-- What the first operand took counts as taken for the others. -/
theorem mem_taken_cons (t : List Span) (p : Operand) (ps : List Operand) (x : Span) :
    x ∈ t ++ assignedSpans (p :: ps) ↔ x ∈ (p.assignedSpan?.toList ++ t) ++ assignedSpans ps := by
  rw [assignedSpans_cons]
  simp only [List.mem_append]
  constructor
  · rintro (h | h | h)
    · exact Or.inl (Or.inr h)
    · exact Or.inl (Or.inl h)
    · exact Or.inr h
  · rintro ((h | h) | h)
    · exact Or.inr (Or.inl h)
    · exact Or.inl h
    · exact Or.inr (Or.inr h)

theorem lowestPlaces_cons {t : List Span} {o p : Operand} {os ps : List Operand} :
    LowestPlaces t (o :: os) (p :: ps) ↔
      o.PlacedBeside t p ∧ LowestPlaces (p.assignedSpan?.toList ++ t) os ps := by
  constructor
  · intro h
    refine ⟨?_, by simpa using h.length_eq, fun k x y hx hy => ?_⟩
    · simpa [assignedSpans] using h.each 0 o p rfl rfl
    · exact (h.each (k + 1) x y hx hy).congr (mem_taken_cons t p (ps.take k))
  · intro h
    obtain ⟨hhead, hrest⟩ := h
    refine ⟨by simp [hrest.length_eq], fun k x y hx hy => ?_⟩
    cases k with
    | zero =>
      obtain rfl : o = x := by simpa using hx
      obtain rfl : p = y := by simpa using hy
      simpa [assignedSpans] using hhead
    | succ k =>
      exact (hrest.each k x y hx hy).congr fun s => (mem_taken_cons t p (ps.take k) s).symm

theorem lowestPlaces_nil {t : List Span} {ps : List Operand} :
    LowestPlaces t [] ps ↔ ps = [] := by
  constructor
  · intro h
    exact List.length_eq_zero_iff.mp h.length_eq
  · intro h
    subst h
    exact ⟨rfl, by simp⟩

/-- An operand is the first without an address if it is in front and has none, or if the operand in
front is placed and it is the first of the others. -/
theorem firstWithout_cons {t : List Span} {o x : Operand} {os : List Operand} :
    FirstWithout t (o :: os) x ↔
      (x = o ∧ o.location = .floating ∧
        ∃ c, o.contents = some c ∧ ∀ a, ¬IsFree t c.size baseAddress a) ∨
      ∃ p, o.PlacedBeside t p ∧ FirstWithout (p.assignedSpan?.toList ++ t) os x := by
  constructor
  · intro h
    obtain ⟨k, c, ps, hx, hloc, hc, hps, hnone⟩ := h
    cases k with
    | zero =>
      obtain rfl : o = x := by simpa using hx
      obtain rfl := lowestPlaces_nil.mp hps
      exact Or.inl ⟨rfl, hloc, c, hc, by simpa [assignedSpans] using hnone⟩
    | succ k =>
      cases ps with
      | nil => simpa using hps.length_eq
      | cons p ps =>
        rw [List.take_succ_cons, lowestPlaces_cons] at hps
        refine Or.inr ⟨p, hps.1, k, c, ps, hx, hloc, hc, hps.2, fun a hf => hnone a ?_⟩
        exact (isFree_congr (mem_taken_cons t p ps)).mpr hf
  · intro h
    rcases h with ⟨rfl, hloc, c, hc, hnone⟩ | ⟨p, hp, k, c, ps, hx, hloc, hc, hps, hnone⟩
    · refine ⟨0, c, [], rfl, hloc, hc, lowestPlaces_nil.mpr rfl, ?_⟩
      simpa [assignedSpans] using hnone
    · refine ⟨k + 1, c, p :: ps, hx, hloc, hc, lowestPlaces_cons.mpr ⟨hp, hps⟩, fun a hf => ?_⟩
      exact hnone a ((isFree_congr (mem_taken_cons t p ps)).mp hf)

theorem not_firstWithout_nil {t : List Span} {x : Operand} : ¬FirstWithout t [] x := by
  intro h
  obtain ⟨k, c, ps, hx, -⟩ := h
  simp at hx

/-! ## The pass -/

variable {taken : List Extent} {os : List Operand}

/-- The recursion of `FirstFit` and the description by place say the same. -/
theorem firstFit_iff_lowestPlaces (hun : ∀ o ∈ os, ∀ a, o.location ≠ .assigned a) :
    ∀ {t : List Span} {ps : List Operand}, FirstFit t os ps ↔ LowestPlaces t os ps := by
  induction os with
  | nil =>
    intro t ps
    rw [lowestPlaces_nil]
    constructor
    · intro h
      cases h
      rfl
    · intro h
      subst h
      exact .nil t
  | cons o rest ih =>
    have ih := @ih fun x hx => hun x (List.mem_cons_of_mem _ hx)
    intro t ps
    constructor
    · intro h
      cases h with
      | keep hkeep hrest =>
        rw [lowestPlaces_cons, Operand.placedBeside_of_keep hkeep,
          Operand.assignedSpan?_eq_none (hun o (List.mem_cons_self ..))]
        exact ⟨rfl, ih.mp hrest⟩
      | @place _ _ c a _ _ hloc hc hleast hrest =>
        have hspan : ({ o with location := .assigned a } : Operand).assignedSpan? =
            some ⟨a, a + c.size⟩ := by
          simp [Operand.assignedSpan?, hc]
        rw [lowestPlaces_cons, Operand.placedBeside_of_place hloc hc, hspan]
        exact ⟨⟨a, rfl, hleast⟩, ih.mp hrest⟩
    · intro h
      cases ps with
      | nil => simpa using h.length_eq
      | cons p ps =>
        obtain ⟨hp, hrest⟩ := lowestPlaces_cons.mp h
        by_cases hkeep : o.location ≠ .floating ∨ o.contents = none
        · obtain rfl := (Operand.placedBeside_of_keep hkeep).mp hp
          rw [Operand.assignedSpan?_eq_none (hun p (List.mem_cons_self ..))] at hrest
          exact .keep hkeep (ih.mpr hrest)
        · obtain ⟨hloc, hc⟩ := not_or.mp hkeep
          obtain ⟨c, hc⟩ := Option.ne_none_iff_exists'.mp hc
          have hloc := not_not.mp hloc
          obtain ⟨a, rfl, hleast⟩ := hp.lowest c hloc hc
          refine .place hloc hc hleast (ih.mpr ?_)
          simpa [Operand.assignedSpan?, hc] using hrest

theorem map_eq_error_iff {ε α β : Type} {x : Except ε α} {f : α → β} {e : ε} :
    x.map f = .error e ↔ x = .error e := by
  cases x <;> simp [Except.map]

/-- The pass fails at the first operand for which no address is left, and only there. -/
theorem placeFloating_eq_error_iff (hsorted : Extent.Ascending taken)
    (hun : ∀ o ∈ os, ∀ a, o.location ≠ .assigned a) {e : RegistryError} :
    (placeFloating taken os).value = .error e ↔
      ∃ o, e = .tooLarge o.name ∧ FirstWithout (taken.map Extent.span) os o := by
  induction os generalizing taken with
  | nil =>
    rw [placeFloating, Logged.value_pure]
    simp [not_firstWithout_nil]
  | cons o rest ih =>
    have ih := fun {xs} (h : Extent.Ascending xs) =>
      ih h fun x hx => hun x (List.mem_cons_of_mem _ hx)
    simp only [firstWithout_cons]
    by_cases hkeep : o.location ≠ .floating ∨ o.contents = none
    · -- `o` asks for nothing, so the failure is one of the rest
      rw [placeFloating_of_keep hkeep, map_eq_error_iff, ih hsorted]
      have hspan := Operand.assignedSpan?_eq_none (hun o (List.mem_cons_self ..))
      constructor
      · intro h
        obtain ⟨x, he, hx⟩ := h
        refine ⟨x, he, Or.inr ⟨o, (Operand.placedBeside_of_keep hkeep).mpr rfl, ?_⟩⟩
        rw [hspan]
        exact hx
      · intro h
        rcases h with ⟨x, he, ⟨-, hloc, c, hc, -⟩ | ⟨p, hp, hx⟩⟩
        · rcases hkeep with hk | hk
          · exact absurd hloc hk
          · rw [hk] at hc
            simp at hc
        · obtain rfl := (Operand.placedBeside_of_keep hkeep).mp hp
          rw [hspan] at hx
          exact ⟨x, he, hx⟩
    · obtain ⟨hloc, hc⟩ := not_or.mp hkeep
      obtain ⟨c, hc⟩ := Option.ne_none_iff_exists'.mp hc
      have hloc := not_not.mp hloc
      simp only [Operand.placedBeside_of_place hloc hc]
      cases ha : firstFit c.size baseAddress taken with
      | none =>
        have hnone := firstFit_eq_none ha
        rw [placeFloating_of_none hloc hc ha]
        constructor
        · intro h
          exact ⟨o, (Except.error.inj h).symm, Or.inl ⟨rfl, hloc, c, hc, hnone⟩⟩
        · intro h
          rcases h with ⟨x, rfl, ⟨rfl, -⟩ | ⟨p, ⟨a, -, hleast⟩, -⟩⟩
          · rfl
          · exact absurd hleast.1 (hnone a)
      | some a =>
        have hleast := (firstFit_eq_some_iff hsorted).mp ha
        have hins := ascending_insertExtent (x := ⟨a, a + c.size, o.id, o.name⟩) hsorted
        have hspan : ({ o with location := .assigned a } : Operand).assignedSpan? =
            some ⟨a, a + c.size⟩ := by
          simp [Operand.assignedSpan?, hc]
        have hmem : ∀ x, x ∈ (insertExtent ⟨a, a + c.size, o.id, o.name⟩ taken).map Extent.span ↔
            x ∈ ⟨a, a + c.size⟩ :: taken.map Extent.span :=
          fun x => mem_spans_insertExtent x
        rw [placeFloating_of_place hloc hc ha, map_eq_error_iff, ih hins]
        constructor
        · intro h
          obtain ⟨x, he, hx⟩ := h
          refine ⟨x, he, Or.inr ⟨_, ⟨a, rfl, hleast⟩, ?_⟩⟩
          rw [hspan]
          exact hx.congr hmem
        · intro h
          rcases h with ⟨x, he, ⟨-, -, c', hc', hnone⟩ | ⟨p, ⟨b, rfl, hb⟩, hx⟩⟩
          · obtain rfl := Option.some.inj (hc.symm.trans hc')
            exact absurd hleast.1 (hnone a)
          · obtain rfl := hleast.unique hb
            rw [hspan] at hx
            exact ⟨x, he, hx.congr fun s => (hmem s).symm⟩

/-! ## The whole of placement -/

namespace Registry

/-- Placement fails where two pinned buffers clash, and otherwise at the first operand for which no
address is left. -/
theorem WellFormed.allocate_eq_error_iff {r : Registry} (hr : r.WellFormed) {e : RegistryError} :
    r.allocate.value = .error e ↔
      (∃ x y, firstClash r.extents = some (x, y) ∧ e = .overlap y.name x.name) ∨
      ((pinnedSpans r.operands).Pairwise Span.Apart ∧
        ∃ o, e = .tooLarge o.name ∧ FirstWithout (pinnedSpans r.operands) r.operands o) := by
  have hun := fun o ho => (hr.sound o ho).unassigned
  rw [← spansOf_eq_pinnedSpans hun, ← r.firstClash_extents]
  unfold allocate
  cases hclash : firstClash r.extents with
  | some xy =>
    obtain ⟨x, y⟩ := xy
    simp [eq_comm]
  | none =>
    simp only [Logged.value_bind, Logged.value_pure, map_eq_error_iff,
      placeFloating_eq_error_iff r.ascending_extents hun]
    have hmem := r.mem_spans_extents
    constructor
    · intro h
      obtain ⟨o, he, ho⟩ := h
      exact Or.inr ⟨trivial, o, he, ho.congr hmem⟩
    · intro h
      rcases h with ⟨x, y, hxy, -⟩ | ⟨-, o, he, ho⟩
      · simp at hxy
      · exact ⟨o, he, ho.congr fun s => (hmem s).symm⟩

/-- **Placement is exact first fit.** Where pinned buffers do not clash, the pass over the operands
in declaration order leaves pinned and unsettled ones alone and gives each other one the least
address that is aligned, not below the base, ends inside a word and keeps apart from every pinned
buffer and every one placed before. The only failure is that an operand is too large, and it names
the first one for which no such address is left. -/
theorem allocate_is_first_fit {r : Registry} (hr : r.Reached)
    (hclear : ∀ x y, r.allocate.value ≠ .error (.overlap x y)) :
    (∀ placed, r.allocate.value = .ok placed ↔
      LowestPlaces (pinnedSpans r.operands) r.operands placed.operands) ∧
    ∀ e, r.allocate.value = .error e ↔
      ∃ o, e = .tooLarge o.name ∧ FirstWithout (pinnedSpans r.operands) r.operands o := by
  have hun := fun o ho => (hr.wellFormed.sound o ho).unassigned
  have hapart : (pinnedSpans r.operands).Pairwise Span.Apart := by
    rw [← spansOf_eq_pinnedSpans hun, ← r.firstClash_extents, Option.eq_none_iff_forall_ne_some]
    intro xy hxy
    exact hclear _ _ (hr.wellFormed.allocate_eq_error_iff.mpr (Or.inl ⟨xy.1, xy.2, hxy, rfl⟩))
  constructor
  · intro placed
    rw [allocate_eq_ok_iff, spansOf_eq_pinnedSpans hun, firstFit_iff_lowestPlaces hun]
    exact and_iff_right hapart
  · intro e
    rw [hr.wellFormed.allocate_eq_error_iff]
    constructor
    · intro h
      rcases h with ⟨x, y, hclash, -⟩ | ⟨-, h⟩
      · refine absurd ?_ (hclear y.name x.name)
        exact hr.wellFormed.allocate_eq_error_iff.mpr (Or.inl ⟨x, y, hclash, rfl⟩)
      · exact h
    · intro h
      exact Or.inr ⟨hapart, h⟩

end Registry

/-! ## A buffer too many

`a` is pinned off the alignment just above the base, so that `sum` goes behind it. What is left
above `sum` is less than `huge` asks for. -/

/-- A pinned buffer and one that is placed around it. -/
def narrowRegistry : Registry :=
  ⟨[⟨0, "a", .input, none, .pinned 106513, some ⟨⟨64, 64⟩, .float16b, 4, 8192⟩⟩,
    ⟨1, "sum", .output, some 0, .floating, some ⟨⟨32, 32⟩, .float16b, 1, 2048⟩⟩]⟩

/-- The two buffers, and one that leaves no room for itself. -/
def fullRegistry : Registry :=
  narrowRegistry.push
    ⟨2, "huge", .input, none, .floating, some ⟨⟨33554400, 32⟩, .float32, 1048575, 4294963200⟩⟩

theorem reached_narrowRegistry : narrowRegistry.Reached := by
  have ha : Registry.Reached ⟨narrowRegistry.operands.take 1⟩ :=
    .input "a" ⟨64, 64⟩ .float16b (some 106513) .empty rfl
  have hsum := Registry.Reached.output .output "sum" 0 none ha (Or.inr rfl) rfl
  exact .resolve (o := ⟨1, "sum", .output, some 0, .floating, none⟩) ⟨32, 32⟩ .float16b hsum
    (by decide) rfl

theorem reached_fullRegistry : fullRegistry.Reached :=
  .input "huge" ⟨33554400, 32⟩ .float32 none reached_narrowRegistry rfl

/-- The two buffers with their addresses. -/
def narrowPlaced : Registry :=
  ⟨[⟨0, "a", .input, none, .pinned 106513, some ⟨⟨64, 64⟩, .float16b, 4, 8192⟩⟩,
    ⟨1, "sum", .output, some 0, .assigned 114720, some ⟨⟨32, 32⟩, .float16b, 1, 2048⟩⟩]⟩

/-- `sum` has the least address behind `a`, and `huge` is the first buffer that has none. -/
theorem allocate_is_first_fit_narrow :
    LowestPlaces (pinnedSpans narrowRegistry.operands) narrowRegistry.operands
      narrowPlaced.operands ∧
    ∃ o, o.name = "huge" ∧
      FirstWithout (pinnedSpans fullRegistry.operands) fullRegistry.operands o := by
  constructor
  · have hfits : narrowRegistry.allocate.value = .ok narrowPlaced := by decide +kernel
    exact ((Registry.allocate_is_first_fit reached_narrowRegistry (by simp [hfits])).1 _).mp hfits
  · have hfails : fullRegistry.allocate.value = .error (.tooLarge "huge") := by decide +kernel
    obtain ⟨o, ho, hfirst⟩ :=
      ((Registry.allocate_is_first_fit reached_fullRegistry (by simp [hfails])).2 _).mp hfails
    exact ⟨o, by simpa using ho.symm, hfirst⟩

end TileFusion
