import TileFusion.Proofs.MemoryLayout
import TileFusion.Proofs.LowestPlaces

/-!
# Pinned buffers in any order

Placement goes through the operands in declaration order, sorts the pinned ones with their ids, and
puts each new buffer among them. None of this is meant to show in the addresses: a pinned buffer
reserves its memory wherever it was declared. So two registries are compared that agree on what is
asked for, buffer by buffer, and on which memory is held, in whatever order:

> `Served`: the requests one after the other, each at the least free address; what comes of it
> depends on the set of what is taken (`Served.congr`, `Served.unique`);
> `FirstFit.exists_served`: what placement hands out is that, and pinned buffers stay;
> `allocate_ignores_order`: both placements succeed or none does, and they give the same addresses.
-/

namespace TileFusion

/-! ## Requests and holdings -/

/-- What a settled buffer without an address asks for. -/
structure Demand where
  /-- Name of the buffer. -/
  name : String
  /-- Its bytes. -/
  size : Nat
  deriving DecidableEq, Repr

/-- What a settled buffer with an address holds. -/
structure Holding where
  /-- Name of the buffer. -/
  name : String
  /-- Where it lies. -/
  address : Nat
  /-- Its bytes. -/
  size : Nat
  deriving DecidableEq, Repr

/-- The addresses that are held. -/
def Holding.span (h : Holding) : Span :=
  ⟨h.address, h.address + h.size⟩

/-- What an operand asks placement for. -/
def Operand.demand? (o : Operand) : Option Demand :=
  match o.location, o.contents with
  | .floating, some c => some ⟨o.name, c.size⟩
  | _, _ => none

/-- What an operand holds. Before placement these are the pinned buffers. -/
def Operand.holding? (o : Operand) : Option Holding :=
  match o.location.address?, o.contents with
  | some a, some c => some ⟨o.name, a, c.size⟩
  | _, _ => none

/-- What is asked for, in declaration order. -/
def demandsOf (os : List Operand) : List Demand :=
  os.filterMap Operand.demand?

/-- What is held, in declaration order. -/
def holdingsOf (os : List Operand) : List Holding :=
  os.filterMap Operand.holding?

theorem demandsOf_cons_of_keep {o : Operand} (h : o.location ≠ .floating ∨ o.contents = none)
    (os : List Operand) : demandsOf (o :: os) = demandsOf os := by
  have hnone : o.demand? = none := by
    unfold Operand.demand?
    split
    · next hloc hc => rcases h with h | h <;> simp_all
    · rfl
  rw [demandsOf, List.filterMap_cons, hnone]
  rfl

theorem demandsOf_cons_of_place {o : Operand} {c : Contents} (hloc : o.location = .floating)
    (hc : o.contents = some c) (os : List Operand) :
    demandsOf (o :: os) = ⟨o.name, c.size⟩ :: demandsOf os := by
  have hsome : o.demand? = some ⟨o.name, c.size⟩ := by
    unfold Operand.demand?
    rw [hloc, hc]
  rw [demandsOf, List.filterMap_cons, hsome]
  rfl

theorem mem_holdingsOf {os : List Operand} {h : Holding} :
    h ∈ holdingsOf os ↔ ∃ o ∈ os, o.holding? = some h :=
  List.mem_filterMap

theorem mem_holdingsOf_cons {o : Operand} {os : List Operand} {h : Holding} :
    h ∈ holdingsOf (o :: os) ↔ o.holding? = some h ∨ h ∈ holdingsOf os := by
  simp [mem_holdingsOf]

theorem Operand.holding?_eq_some_iff {o : Operand} {h : Holding} :
    o.holding? = some h ↔ ∃ c a, o.contents = some c ∧ o.location.address? = some a ∧
      h = ⟨o.name, a, c.size⟩ := by
  unfold Operand.holding?
  cases o.contents with
  | none => cases o.location.address? <;> simp
  | some c =>
    cases o.location.address? with
    | none => simp
    | some a => simp [eq_comm]

/-- Held memory is all that placement sees as taken. -/
theorem spansOf_eq_holdings (os : List Operand) :
    spansOf os = (holdingsOf os).map Holding.span := by
  unfold spansOf holdingsOf
  rw [List.map_filterMap]
  congr 1
  funext o
  unfold Operand.span? Operand.extent? Operand.holding?
  cases o.contents with
  | none => cases o.location.address? <;> rfl
  | some c => cases o.location.address? <;> rfl

theorem mem_spansOf_iff {os os' : List Operand} (h : ∀ x, x ∈ holdingsOf os ↔ x ∈ holdingsOf os')
    (s : Span) : s ∈ spansOf os ↔ s ∈ spansOf os' := by
  simp only [spansOf_eq_holdings, List.mem_map, h]

/-! ## Serving requests -/

/-- The requests one after the other, each at the least address that is free beside what is taken.
What one is given is taken for those behind it. -/
inductive Served : List Span → List Demand → List Holding → Prop where
  | nil (taken : List Span) : Served taken [] []
  | cons {taken : List Span} {d : Demand} {a : Nat} {rest : List Demand} {given : List Holding}
      (hleast : IsLeast { b | IsFree taken d.size baseAddress b } a)
      (hrest : Served (⟨a, a + d.size⟩ :: taken) rest given) :
      Served taken (d :: rest) (⟨d.name, a, d.size⟩ :: given)

/-- The order in which memory was taken does not matter. -/
theorem Served.congr {t t' : List Span} {ds : List Demand} {hs : List Holding}
    (h : Served t ds hs) (he : ∀ x, x ∈ t ↔ x ∈ t') : Served t' ds hs := by
  induction h generalizing t' with
  | nil => exact .nil t'
  | cons hleast _ ih =>
    refine .cons ?_ (ih fun x => ?_)
    · simpa only [isFree_congr he] using hleast
    · simp only [List.mem_cons, he x]

/-- There is one way to serve requests. -/
theorem Served.unique {t : List Span} {ds : List Demand} {hs hs' : List Holding}
    (h : Served t ds hs) (h' : Served t ds hs') : hs = hs' := by
  induction h generalizing hs' with
  | nil =>
    cases h'
    rfl
  | cons hleast _ ih =>
    cases h' with
    | cons hleast' hrest' =>
      obtain rfl := hleast.unique hleast'
      rw [ih hrest']

/-- Placement serves the requests of the operands, and leaves what is held as it is. -/
theorem FirstFit.exists_served {t : List Span} {os ps : List Operand} (h : FirstFit t os ps) :
    ∃ given, Served t (demandsOf os) given ∧
      ∀ x, x ∈ holdingsOf ps ↔ x ∈ holdingsOf os ∨ x ∈ given := by
  induction h with
  | nil => exact ⟨[], .nil _, by simp [holdingsOf]⟩
  | @place t o c a rest placed hloc hc hleast _ ih =>
    obtain ⟨given, hgiven, hmem⟩ := ih
    refine ⟨⟨o.name, a, c.size⟩ :: given, ?_, fun x => ?_⟩
    · rw [demandsOf_cons_of_place hloc hc]
      exact .cons hleast hgiven
    · have hold : o.holding? = none := by
        unfold Operand.holding?
        rw [hloc]
        rfl
      have hnew : ({ o with location := .assigned a } : Operand).holding? =
          some ⟨o.name, a, c.size⟩ := by
        unfold Operand.holding?
        rw [hc]
        rfl
      simp only [mem_holdingsOf_cons, hold, hnew, hmem, List.mem_cons, Option.some.injEq]
      tauto
  | @keep t o rest placed hkeep _ ih =>
    obtain ⟨given, hgiven, hmem⟩ := ih
    refine ⟨given, ?_, fun x => ?_⟩
    · rwa [demandsOf_cons_of_keep hkeep]
    · simp only [mem_holdingsOf_cons, hmem]
      tauto

/-- Where the requests can be served, the operands can be placed. -/
theorem Served.exists_firstFit {os : List Operand} :
    ∀ {t : List Span} {given : List Holding}, Served t (demandsOf os) given →
      ∃ ps, FirstFit t os ps := by
  induction os with
  | nil => exact fun _ => ⟨[], .nil _⟩
  | cons o rest ih =>
    intro t given h
    by_cases hkeep : o.location ≠ .floating ∨ o.contents = none
    · rw [demandsOf_cons_of_keep hkeep] at h
      obtain ⟨ps, hps⟩ := ih h
      exact ⟨o :: ps, .keep hkeep hps⟩
    · obtain ⟨hloc, hc⟩ := not_or.mp hkeep
      obtain ⟨c, hc⟩ := Option.ne_none_iff_exists'.mp hc
      have hloc := not_not.mp hloc
      rw [demandsOf_cons_of_place hloc hc] at h
      cases h with
      | cons hleast hrest =>
        obtain ⟨ps, hps⟩ := ih hrest
        exact ⟨_, .place hloc hc hleast hps⟩

/-! ## Two registries -/

namespace Registry

variable {r r' : Registry}

/-- Names are used once, so nothing is held twice. -/
theorem WellFormed.nodup_holdings (hr : r.WellFormed) : (holdingsOf r.operands).Nodup := by
  have hnames : r.operands.Pairwise fun x y => x.name ≠ y.name := List.pairwise_map.mp hr.names
  refine List.Pairwise.filterMap _ ?_ hnames
  intro x y hne h hx h' hy he
  obtain ⟨c, a, -, -, rfl⟩ := Operand.holding?_eq_some_iff.mp hx
  obtain ⟨c', a', -, -, rfl⟩ := Operand.holding?_eq_some_iff.mp hy
  exact hne (congrArg Holding.name he)

/-- Which buffers clash does not depend on the order. -/
theorem pairwise_apart_of_same (hr : r.WellFormed) (hr' : r'.WellFormed)
    (hholdings : ∀ h, h ∈ holdingsOf r.operands ↔ h ∈ holdingsOf r'.operands)
    (hap : (spansOf r.operands).Pairwise Span.Apart) :
    (spansOf r'.operands).Pairwise Span.Apart := by
  have hperm : (holdingsOf r.operands).Perm (holdingsOf r'.operands) :=
    (List.perm_ext_iff_of_nodup hr.nodup_holdings hr'.nodup_holdings).mpr hholdings
  rw [spansOf_eq_holdings] at hap ⊢
  exact ((hperm.map Holding.span).pairwise_iff Span.Apart.symm).mp hap

theorem exists_allocate_of_same (hr : r.WellFormed) (hr' : r'.WellFormed)
    (hdemands : demandsOf r.operands = demandsOf r'.operands)
    (hholdings : ∀ h, h ∈ holdingsOf r.operands ↔ h ∈ holdingsOf r'.operands)
    (h : ∃ p, r.allocate.value = .ok p) : ∃ p', r'.allocate.value = .ok p' := by
  obtain ⟨p, hp⟩ := h
  obtain ⟨hap, hfit⟩ := allocate_eq_ok_iff.mp hp
  obtain ⟨given, hgiven, -⟩ := hfit.exists_served
  rw [hdemands] at hgiven
  obtain ⟨ps, hps⟩ := (hgiven.congr (mem_spansOf_iff hholdings)).exists_firstFit
  exact ⟨⟨ps⟩, allocate_eq_ok_iff.mpr ⟨pairwise_apart_of_same hr hr' hholdings hap, hps⟩⟩

/-- After placement the two registries hold the same memory under the same names. -/
theorem mem_holdings_of_allocate {p p' : Registry}
    (hdemands : demandsOf r.operands = demandsOf r'.operands)
    (hholdings : ∀ h, h ∈ holdingsOf r.operands ↔ h ∈ holdingsOf r'.operands)
    (hp : r.allocate.value = .ok p) (hp' : r'.allocate.value = .ok p') (h : Holding) :
    h ∈ holdingsOf p.operands ↔ h ∈ holdingsOf p'.operands := by
  obtain ⟨given, hgiven, hmem⟩ := (allocate_eq_ok_iff.mp hp).2.exists_served
  obtain ⟨given', hgiven', hmem'⟩ := (allocate_eq_ok_iff.mp hp').2.exists_served
  rw [hdemands] at hgiven
  obtain rfl := (hgiven.congr (mem_spansOf_iff hholdings)).unique hgiven'
  rw [hmem, hmem', hholdings]

/-- **The order of pinned buffers does not show.** Two registries ask for the same buffers in the
same order, and the same buffers are pinned at the same addresses, in any order and anywhere between
the others. Then both can be placed or none can, and a name that is settled in one has the same
address in the other. -/
theorem allocate_ignores_order (hr : r.Reached) (hr' : r'.Reached)
    (hdemands : demandsOf r.operands = demandsOf r'.operands)
    (hholdings : ∀ h, h ∈ holdingsOf r.operands ↔ h ∈ holdingsOf r'.operands) :
    ((∃ p, r.allocate.value = .ok p) ↔ ∃ p', r'.allocate.value = .ok p') ∧
    ∀ p p', r.allocate.value = .ok p → r'.allocate.value = .ok p' →
      ∀ name o, p.find? name = some o → o.isResolved = true →
        ∃ o', p'.find? name = some o' ∧ o'.isResolved = true ∧
          o.isPlaced = true ∧ o'.isPlaced = true ∧ o'.address = o.address := by
  have hwf := hr.wellFormed
  have hwf' := hr'.wellFormed
  refine ⟨⟨exists_allocate_of_same hwf hwf' hdemands hholdings,
    exists_allocate_of_same hwf' hwf hdemands.symm fun h => (hholdings h).symm⟩, ?_⟩
  intro p p' hp hp' name o ho hres
  -- a settled operand has an address, so it holds memory, and so does its name in the other
  -- registry
  obtain ⟨o₁, ho₁, hplaced⟩ := exists_of_mem_allocate hp (mem_of_find? ho)
  obtain ⟨c, hc₁, hc⟩ := Operand.isResolved_of_placed hplaced hres
  obtain ⟨a, ha, -⟩ := hplaced.fits (hwf.sound o₁ ho₁) hc₁
  have hheld : (⟨o.name, a, c.size⟩ : Holding) ∈ holdingsOf p'.operands := by
    rw [← mem_holdings_of_allocate hdemands hholdings hp hp', mem_holdingsOf]
    exact ⟨o, mem_of_find? ho, Operand.holding?_eq_some_iff.mpr ⟨c, a, hc, ha, rfl⟩⟩
  obtain ⟨o', ho', hhold'⟩ := mem_holdingsOf.mp hheld
  obtain ⟨c', a', hc', ha', he⟩ := Operand.holding?_eq_some_iff.mp hhold'
  obtain ⟨hname, rfl, -⟩ := Holding.mk.inj he
  refine ⟨o', ?_, Operand.isResolved_iff.mpr ⟨c', hc'⟩, Operand.isPlaced_of_location ha,
    Operand.isPlaced_of_location ha', ?_⟩
  · rw [← name_of_find? ho, hname]
    exact find?_name_of_nodup (hwf'.names_of_allocate hp') ho'
  · rw [Operand.address_of_location ha, Operand.address_of_location ha']

end Registry

/-! ## Four buffers in two orders

`a` and `b` are pinned one behind the other, `a` just above the base and off the alignment. `x` fits
neither in front of `a` nor between the two, and `y` goes behind `x`. -/

/-- The pinned buffers first. -/
def pinnedFirst : Registry :=
  ⟨[⟨0, "a", .input, none, .pinned 106513, some ⟨⟨64, 64⟩, .float16b, 4, 8192⟩⟩,
    ⟨1, "b", .input, none, .pinned 114720, some ⟨⟨32, 32⟩, .float16b, 1, 2048⟩⟩,
    ⟨2, "x", .input, none, .floating, some ⟨⟨64, 64⟩, .float16b, 4, 8192⟩⟩,
    ⟨3, "y", .input, none, .floating, some ⟨⟨32, 32⟩, .float16b, 1, 2048⟩⟩]⟩

/-- The pinned buffers the other way round, and between and behind the others. -/
def pinnedLast : Registry :=
  ⟨[⟨0, "x", .input, none, .floating, some ⟨⟨64, 64⟩, .float16b, 4, 8192⟩⟩,
    ⟨1, "b", .input, none, .pinned 114720, some ⟨⟨32, 32⟩, .float16b, 1, 2048⟩⟩,
    ⟨2, "y", .input, none, .floating, some ⟨⟨32, 32⟩, .float16b, 1, 2048⟩⟩,
    ⟨3, "a", .input, none, .pinned 106513, some ⟨⟨64, 64⟩, .float16b, 4, 8192⟩⟩]⟩

/-- The first order with all addresses. -/
def pinnedFirstPlaced : Registry :=
  ⟨[⟨0, "a", .input, none, .pinned 106513, some ⟨⟨64, 64⟩, .float16b, 4, 8192⟩⟩,
    ⟨1, "b", .input, none, .pinned 114720, some ⟨⟨32, 32⟩, .float16b, 1, 2048⟩⟩,
    ⟨2, "x", .input, none, .assigned 116768, some ⟨⟨64, 64⟩, .float16b, 4, 8192⟩⟩,
    ⟨3, "y", .input, none, .assigned 124960, some ⟨⟨32, 32⟩, .float16b, 1, 2048⟩⟩]⟩

theorem reached_pinnedFirst : pinnedFirst.Reached := by
  have ha : Registry.Reached ⟨pinnedFirst.operands.take 1⟩ :=
    .input "a" ⟨64, 64⟩ .float16b (some 106513) .empty rfl
  have hb : Registry.Reached ⟨pinnedFirst.operands.take 2⟩ :=
    .input "b" ⟨32, 32⟩ .float16b (some 114720) ha rfl
  have hx : Registry.Reached ⟨pinnedFirst.operands.take 3⟩ :=
    .input "x" ⟨64, 64⟩ .float16b none hb rfl
  exact .input "y" ⟨32, 32⟩ .float16b none hx rfl

theorem reached_pinnedLast : pinnedLast.Reached := by
  have hx : Registry.Reached ⟨pinnedLast.operands.take 1⟩ :=
    .input "x" ⟨64, 64⟩ .float16b none .empty rfl
  have hb : Registry.Reached ⟨pinnedLast.operands.take 2⟩ :=
    .input "b" ⟨32, 32⟩ .float16b (some 114720) hx rfl
  have hy : Registry.Reached ⟨pinnedLast.operands.take 3⟩ :=
    .input "y" ⟨32, 32⟩ .float16b none hb rfl
  exact .input "a" ⟨64, 64⟩ .float16b (some 106513) hy rfl

/-- In both orders `y` lies behind all others. -/
theorem allocate_ignores_order_shuffled :
    demandsOf pinnedFirst.operands = demandsOf pinnedLast.operands ∧
    (∀ h, h ∈ holdingsOf pinnedFirst.operands ↔ h ∈ holdingsOf pinnedLast.operands) ∧
    ∃ p o, pinnedLast.allocate.value = .ok p ∧ p.find? "y" = some o ∧ o.address = 124960 := by
  have hdemands : demandsOf pinnedFirst.operands = demandsOf pinnedLast.operands := rfl
  have hholdings (h : Holding) :
      h ∈ holdingsOf pinnedFirst.operands ↔ h ∈ holdingsOf pinnedLast.operands := by
    show h ∈ [⟨"a", 106513, 8192⟩, ⟨"b", 114720, 2048⟩] ↔
      h ∈ [⟨"b", 114720, 2048⟩, ⟨"a", 106513, 8192⟩]
    exact (List.Perm.swap ..).mem_iff
  have hfirst : pinnedFirst.allocate.value = .ok pinnedFirstPlaced := by cbv
  obtain ⟨hboth, hsame⟩ := Registry.allocate_ignores_order reached_pinnedFirst reached_pinnedLast
    hdemands hholdings
  obtain ⟨p, hp⟩ := hboth.mp ⟨_, hfirst⟩
  obtain ⟨o, ho, -, -, -, haddress⟩ := hsame _ p hfirst hp "y" _ rfl rfl
  exact ⟨hdemands, hholdings, p, o, hp, ho, haddress⟩

end TileFusion
