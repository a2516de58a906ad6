import TileFusion.Proofs.Derivation
import TileFusion.Proofs.FirstFit
import Mathlib.Data.List.Permutation

/-!
# Memory layout of a built pipeline

Placement runs once, on the registry that the last stage leaves. `FirstFit` says what it does to
that registry; `ResolvesAll` says how that registry comes from the caller's. Together:

> `build_memory_layout`: in a built pipeline every settled buffer has an address, no two of them
> share memory, all of them end inside a word, requested addresses are kept, and all other addresses
> are aligned and not below `baseAddress`.

Nothing is asked of the order of declarations: a buffer may be pinned below the base, off the
alignment, behind or between buffers that were declared before it.
-/

namespace TileFusion

/-! ## Placement, operand by operand -/

section Placed

variable {o o' : Operand}

theorem Placed.name_eq (h : Placed o o') : o'.name = o.name := by
  rcases h with ⟨-, rfl⟩ | ⟨c, a, -, -, -, -, -, rfl⟩ <;> rfl

theorem Placed.id_eq (h : Placed o o') : o'.id = o.id := by
  rcases h with ⟨-, rfl⟩ | ⟨c, a, -, -, -, -, -, rfl⟩ <;> rfl

theorem Placed.role_eq (h : Placed o o') : o'.role = o.role := by
  rcases h with ⟨-, rfl⟩ | ⟨c, a, -, -, -, -, -, rfl⟩ <;> rfl

theorem Placed.producer_eq (h : Placed o o') : o'.producer = o.producer := by
  rcases h with ⟨-, rfl⟩ | ⟨c, a, -, -, -, -, -, rfl⟩ <;> rfl

/-- An operand without contents is not moved. -/
theorem Placed.eq_of_pending (h : Placed o o') (hpending : o.contents = none) : o' = o := by
  rcases h with ⟨-, rfl⟩ | ⟨c, a, -, hc, -⟩
  · rfl
  · rw [hpending] at hc
    simp at hc

theorem Placed.contents_eq (h : Placed o o') : o'.contents = o.contents := by
  rcases h with ⟨-, rfl⟩ | ⟨c, a, -, -, -, -, -, rfl⟩ <;> rfl

/-- An operand with an address keeps it. -/
theorem Placed.location_eq (h : Placed o o') (hloc : o.location ≠ .floating) :
    o'.location = o.location := by
  rcases h with ⟨-, rfl⟩ | ⟨c, a, hfl, -⟩
  · rfl
  · exact absurd hfl hloc

/-- A settled operand leaves placement with an address, where its contents end inside a word. -/
theorem Placed.fits (h : Placed o o') (hs : o.Sound) {c : Contents} (hc : o.contents = some c) :
    ∃ a, o'.location.address? = some a ∧ a + c.size < wordLimit := by
  rcases h with ⟨hkeep, rfl⟩ | ⟨c', a, -, hc', -, -, hlt, rfl⟩
  · -- an operand that stays as it is was pinned when it was declared
    have hloc : o'.location ≠ .floating := by
      rcases hkeep with h | h
      · exact h
      · rw [h] at hc
        simp at hc
    cases hl : o'.location with
    | floating => exact absurd hl hloc
    | assigned a => exact absurd hl (hs.unassigned a)
    | pinned a =>
      have hfit := hs.fits c hc
      rw [hl, Operand.fitsPin, Option.isSome_iff_exists] at hfit
      obtain ⟨n, hn⟩ := hfit
      exact ⟨a, rfl, (word?_eq_some_iff.mp hn).1⟩
  · obtain rfl := Option.some.inj (hc.symm.trans hc')
    exact ⟨a, rfl, hlt⟩

/-- An address that was not asked for is aligned and not below the base. -/
theorem Placed.aligned (h : Placed o o') {c : Contents} (hc : o.contents = some c)
    (hloc : o.location = .floating) : alignment ∣ o'.address ∧ baseAddress ≤ o'.address := by
  rcases h with ⟨hkeep, -⟩ | ⟨c', a, -, -, hal, hbase, -, rfl⟩
  · rcases hkeep with h | h
    · exact absurd hloc h
    · rw [h] at hc
      simp at hc
  · exact ⟨hal, hbase⟩

end Placed

/-! ## Placement, by id -/

/-- Placement goes through the operands one by one, and changes nothing of them but the address. -/
theorem placed_of_allocate {r r' : Registry} (h : r.allocate.value = .ok r') :
    List.Forall₂ Placed r.operands r'.operands :=
  (Registry.allocate_eq_ok_iff.mp h).2.placed

/-- What placement keeps of every operand it keeps of the list. -/
theorem map_of_placed {β : Type} {f : Operand → β}
    (hf : ∀ {o o' : Operand}, Placed o o' → f o' = f o) {xs ys : List Operand}
    (h : List.Forall₂ Placed xs ys) : ys.map f = xs.map f := by
  induction h with
  | nil => rfl
  | cons hplaced _ ih => rw [List.map_cons, List.map_cons, ih, hf hplaced]

theorem Registry.WellFormed.names_of_allocate {r r' : Registry} (hr : r.WellFormed)
    (h : r.allocate.value = .ok r') : (r'.operands.map (·.name)).Nodup := by
  rw [map_of_placed Placed.name_eq (placed_of_allocate h)]
  exact hr.names

/-- Ids mean the same operand before and after placement. -/
theorem operand?_of_allocate {r r' : Registry} (h : r.allocate.value = .ok r') {i : Nat}
    {o : Operand} (ho : r.operand? i = some o) : ∃ o', r'.operand? i = some o' ∧ Placed o o' := by
  have hall := placed_of_allocate h
  obtain ⟨hi, hget⟩ := List.getElem?_eq_some_iff.mp ho
  have hi' : i < r'.operands.length := by rw [← hall.length_eq]; exact hi
  refine ⟨r'.operands.get ⟨i, hi'⟩, List.getElem?_eq_getElem hi', ?_⟩
  have hp := hall.get hi hi'
  rw [show r.operands.get ⟨i, hi⟩ = o from hget] at hp
  exact hp

theorem operand?_of_placed {r r' : Registry} (h : r.allocate.value = .ok r') {i : Nat}
    {o' : Operand} (ho' : r'.operand? i = some o') : ∃ o, r.operand? i = some o ∧ Placed o o' := by
  obtain ⟨hi', -⟩ := List.getElem?_eq_some_iff.mp ho'
  have hi : i < r.operands.length := by rwa [(placed_of_allocate h).length_eq]
  have ho : r.operand? i = some (r.operands.get ⟨i, hi⟩) := List.getElem?_eq_getElem hi
  obtain ⟨x, hx, hplaced⟩ := operand?_of_allocate h ho
  rw [ho'] at hx
  exact ⟨_, ho, Option.some.inj hx ▸ hplaced⟩

/-- Placement adds no operand. -/
theorem exists_of_mem_allocate {r r' : Registry} (h : r.allocate.value = .ok r') {o' : Operand}
    (ho' : o' ∈ r'.operands) : ∃ o ∈ r.operands, Placed o o' := by
  have hall := placed_of_allocate h
  obtain ⟨i, hi', hget⟩ := List.mem_iff_getElem.mp ho'
  have hi : i < r.operands.length := by rw [hall.length_eq]; exact hi'
  refine ⟨r.operands.get ⟨i, hi⟩, List.getElem_mem hi, ?_⟩
  have hp := hall.get hi hi'
  rw [show r'.operands.get ⟨i, hi'⟩ = o' from hget] at hp
  exact hp

/-! ## The layout -/

theorem Operand.isResolved_of_placed {o o' : Operand} (h : Placed o o')
    (hres : o'.isResolved = true) : ∃ c, o.contents = some c ∧ o'.contents = some c := by
  obtain ⟨c, hc⟩ := Operand.isResolved_iff.mp hres
  exact ⟨c, by rw [← h.contents_eq]; exact hc, hc⟩

theorem Operand.size_of_contents {o : Operand} {c : Contents} (h : o.contents = some c) :
    o.size = c.size := by
  rw [Operand.size, h]
  rfl

theorem Operand.address_of_location {o : Operand} {a : Nat} (h : o.location.address? = some a) :
    o.address = a := by
  rw [Operand.address, h]
  rfl

theorem Operand.isPlaced_of_location {o : Operand} {a : Nat} (h : o.location.address? = some a) :
    o.isPlaced = true := by
  rw [Operand.isPlaced, h]
  rfl

/-- The span of an operand that is settled and placed, in its own words. -/
theorem Operand.span?_of_placed {o : Operand} (hres : o.isResolved = true)
    (hpl : o.isPlaced = true) : o.span? = some ⟨o.address, o.address + o.size⟩ := by
  obtain ⟨c, hc⟩ := Operand.isResolved_iff.mp hres
  obtain ⟨a, ha⟩ := Option.isSome_iff_exists.mp hpl
  rw [Operand.address_of_location ha, Operand.size_of_contents hc]
  exact Operand.span?_eq_some_iff.mpr ⟨c, a, hc, ha, rfl⟩

/-- The buffers of a built pipeline never share memory, whatever the caller has pinned. -/
theorem build_memory_layout {r : Registry} {specs : List StageSpec} {settings : Settings}
    {p : Pipeline} (hr : r.Declared) (hb : (Pipeline.build r specs settings).value = .ok p) :
    (∀ o ∈ p.registry.operands, o.isResolved = true → o.isPlaced = true) ∧
    (p.registry.operands.filter (·.isResolved)).Pairwise
      (fun x y => x.address + x.size ≤ y.address ∨ y.address + y.size ≤ x.address) ∧
    (∀ o ∈ p.registry.operands, o.isResolved = true → o.address + o.size < wordLimit) ∧
    (∀ o ∈ r.operands, ∀ a, o.location = .pinned a →
      ∃ o', p.registry.operand? o.id = some o' ∧ o'.name = o.name ∧ o'.isPlaced = true ∧
        o'.address = a) ∧
    (∀ o ∈ p.registry.operands, o.isResolved = true →
      (∀ d ∈ r.operands, d.name = o.name → d.location = .floating) →
        alignment ∣ o.address ∧ baseAddress ≤ o.address) := by
  obtain ⟨-, stages, final, placed, hall, hplace, rfl⟩ := build_eq_ok_iff.mp hb
  have hwf : final.WellFormed := hall.wellFormed hr.wellFormed
  have hext : r.Extends final := hall.extends hr.wellFormed
  have hfit : ∀ o ∈ placed.operands, o.isResolved = true →
      ∃ a, o.location.address? = some a ∧ a + o.size < wordLimit := by
    intro o ho hres
    obtain ⟨o₁, ho₁, hpl⟩ := exists_of_mem_allocate hplace ho
    obtain ⟨c, hc₁, hc⟩ := Operand.isResolved_of_placed hpl hres
    rw [Operand.size_of_contents hc]
    exact hpl.fits (hwf.sound o₁ ho₁) hc₁
  have hplaced : ∀ o ∈ placed.operands, o.isResolved = true → o.isPlaced = true := by
    intro o ho hres
    obtain ⟨a, ha, -⟩ := hfit o ho hres
    exact Operand.isPlaced_of_location ha
  refine ⟨hplaced, ?_, ?_, ?_, ?_⟩
  · -- settled buffers are the ones that have a span
    have hap := Registry.pairwise_apart_of_allocate hplace
    unfold spansOf at hap
    rw [List.pairwise_filterMap] at hap
    rw [List.pairwise_filter]
    refine hap.imp_of_mem ?_
    intro x y hx hy hxy hxres hyres
    exact hxy _ (Operand.span?_of_placed hxres (hplaced x hx hxres)) _
      (Operand.span?_of_placed hyres (hplaced y hy hyres))
  · intro o ho hres
    obtain ⟨a, ha, hlt⟩ := hfit o ho hres
    rw [Operand.address_of_location ha]
    exact hlt
  · intro o ho a hloc
    obtain ⟨o₁, hf₁, hid, hloc₁, -⟩ := hext.kept o.name o (hr.wellFormed.find?_name ho)
    have hop := hwf.operand?_id (Registry.mem_of_find? hf₁)
    rw [hid] at hop
    obtain ⟨o', ho', hpl⟩ := operand?_of_allocate hplace hop
    have hloc' : o'.location = .pinned a := by
      rw [hpl.location_eq (by rw [hloc₁, hloc]; simp), hloc₁, hloc]
    refine ⟨o', ho', ?_, ?_, ?_⟩
    · rw [hpl.name_eq, Registry.name_of_find? hf₁]
    · exact Operand.isPlaced_of_location (a := a) (by rw [hloc']; rfl)
    · exact Operand.address_of_location (by rw [hloc']; rfl)
  · intro o ho hres hdecl
    obtain ⟨o₁, ho₁, hpl⟩ := exists_of_mem_allocate hplace ho
    obtain ⟨c, hc₁, -⟩ := Operand.isResolved_of_placed hpl hres
    have hf₁ : final.find? o.name = some o₁ := by
      rw [hpl.name_eq]
      exact hwf.find?_name ho₁
    refine hpl.aligned hc₁ ?_
    -- the caller has declared the name without an address, or not at all
    cases hf : r.find? o.name with
    | none => exact hext.floating o.name o₁ hf hf₁
    | some d =>
      obtain ⟨o₂, hf₂, -, hloc, -⟩ := hext.kept o.name d hf
      rw [hf₁] at hf₂
      rw [Option.some.inj hf₂, hloc]
      exact hdecl d (Registry.mem_of_find? hf) (Registry.name_of_find? hf)

/-! ## A crowded memory

`a` is free to be placed, `b` is pinned off the alignment just above the base, `z` is an empty
buffer pinned on the edge of `b`, and the output `sum` of the first stage is pinned below the base.
-/

/-- Declarations that leave placement a narrow gap at the base. -/
def crowdedRegistry : Registry :=
  ⟨[⟨0, "a", .input, none, .floating, some ⟨⟨64, 64⟩, .float16b, 4, 8192⟩⟩,
    ⟨1, "b", .input, none, .pinned 106513, some ⟨⟨64, 64⟩, .float16b, 4, 8192⟩⟩,
    ⟨2, "z", .input, none, .pinned 114705, some ⟨⟨0, 0⟩, .float32, 0, 0⟩⟩,
    ⟨3, "sum", .output, some 0, .pinned 7, none⟩]⟩

/-- Two fused stages: the second one multiplies the sum, which it takes from the accumulator. -/
def fusedSpecs : List StageSpec :=
  [{ loader := ⟨.direct, "a", some "b", .none, false, false⟩
     arithmetic := .eltwise .add
     nonlinear := []
     output := "sum"
     outputFormat := .float16b
     fidelity := .lofi
     unpackToDest := false },
   { loader := ⟨.direct, "a", some "sum", .sourceB, false, false⟩
     arithmetic := .eltwise .mul
     nonlinear := []
     output := "prod"
     outputFormat := .float16
     fidelity := .hifi2
     unpackToDest := false }]

/-- Batches of three tiles, so that four tiles leave a remainder. -/
def fusedSettings : Settings :=
  ⟨.wormhole, false, 3, .half⟩

theorem declared_crowdedRegistry : crowdedRegistry.Declared := by
  have ha : Registry.Declared ⟨crowdedRegistry.operands.take 1⟩ :=
    .input "a" ⟨64, 64⟩ .float16b none .empty rfl
  have hb : Registry.Declared ⟨crowdedRegistry.operands.take 2⟩ :=
    .input "b" ⟨64, 64⟩ .float16b (some 106513) ha rfl
  have hz : Registry.Declared ⟨crowdedRegistry.operands.take 3⟩ :=
    .input "z" ⟨0, 0⟩ .float32 (some 114705) hb rfl
  exact .output .output "sum" 0 (some 7) hz (Or.inr rfl) rfl

theorem exists_build_crowded :
    ∃ p, (Pipeline.build crowdedRegistry fusedSpecs fusedSettings).value = .ok p :=
  exists_build_of_run
    (⟨crowdedRegistry.operands.take 3 ++
      [⟨3, "sum", .intermediate, some 0, .pinned 7, some ⟨⟨64, 64⟩, .float16b, 4, 8192⟩⟩,
        ⟨4, "prod", .output, some 1, .floating, some ⟨⟨64, 64⟩, .float16, 4, 8192⟩⟩]⟩)
    (by decide +kernel) (by decide +kernel) (by decide +kernel) (by cbv)

/-- The crowded memory is laid out without overlap. -/
theorem build_memory_layout_crowded :
    ∃ p, (Pipeline.build crowdedRegistry fusedSpecs fusedSettings).value = .ok p ∧
      (p.registry.operands.filter (·.isResolved)).Pairwise
        (fun x y => x.address + x.size ≤ y.address ∨ y.address + y.size ≤ x.address) := by
  obtain ⟨p, hp⟩ := exists_build_crowded
  exact ⟨p, hp, (build_memory_layout declared_crowdedRegistry hp).2.1⟩

end TileFusion
