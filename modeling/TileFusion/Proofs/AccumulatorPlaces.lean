import TileFusion.Proofs.Sections
import TileFusion.Proofs.UniformBatches

/-!
# Places in the accumulator

Most calls that address the accumulator go by the place of a tile in its batch, and a batch never
has more tiles than the accumulator holds. A binary unit that runs behind the arithmetic is
different: the description names its three tiles by number, and no check looks at the numbers.

> `places_within_iff`: every other call stays within the capacity, and a stage stays within it as a
> whole exactly when the numbers of its binary units do.

The condition is not empty: `binary_unit_overruns` is built and writes behind the accumulator.
-/

namespace TileFusion

/-! ## Addresses -/

/-- The accumulator tiles that a call addresses. -/
def Call.places : Call → List Index
  | .eltwise .. | .reduce _ | .matmul _ | .datacopy .. | .unaryStart _ | .pack .. => [.place]
  | .binaryStart _ => [.const 0]
  | .binary _ _ _ _ first second result => [.const first, .const second, .const result]
  | _ => []

/-- The tiles that a unit addresses by number. -/
def Nonlinear.places : Nonlinear → List Nat
  | .unary .. => []
  | .binary _ _ _ first second result => [first, second, result]

/-- The unit that a call runs on tiles given by number. -/
def Call.unit? : Call → Option Nonlinear
  | .binary _ op approximate iterations first second result =>
    some (.binary op iterations approximate first second result)
  | _ => none

/-- The accumulator tiles that a call addresses when it is made. -/
def Event.places (e : Event) : List Nat :=
  e.call.places.map (·.eval e.turn)

/-- The stage addresses no tile behind the accumulator, in no thread and no batch. -/
def StageView.WithinCapacity (v : StageView) : Prop :=
  ∀ t, ∀ e ∈ v.events t, ∀ n ∈ e.places, n < v.stage.capacity

theorem Call.places_of_unit? {call : Call} {unit : Nonlinear} (h : call.unit? = some unit) :
    call.places = unit.places.map .const := by
  cases call <;> simp only [unit?, reduceCtorEq] at h
  obtain rfl := Option.some.inj h
  rfl

theorem Call.eq_place_or_zero {call : Call} (h : call.unit? = none) {x : Index}
    (hx : x ∈ call.places) : x = .place ∨ x = .const 0 := by
  cases call <;> simp_all [places, unit?]

theorem Event.places_of_unit? {e : Event} {unit : Nonlinear} (h : e.call.unit? = some unit) :
    e.places = unit.places := by
  rw [Event.places, Call.places_of_unit? h, List.map_map]
  exact List.map_id _

/-! ## Loops over the tiles of a batch -/

mutual

/-- No batch has more than `bound` tiles, and calls that go by the place of a tile stand in a loop
over the tiles, whose variable no other loop counts in. The flag says that such a loop is around the
statement. -/
def Stmt.Guarded (bound : Nat) (inside : Bool) : Stmt → Prop
  | .call call => .place ∈ call.places → inside = true
  | .batched shape body =>
    shape.batchSize ≤ bound ∧ shape.remainder ≤ bound ∧ GuardedAll bound inside body
  | .forEachTile body => GuardedAll bound true body
  | .loop counter _ body => counter ≠ "i" ∧ GuardedAll bound inside body
  | .comment _ | .declare _ | .blank => True

def GuardedAll (bound : Nat) (inside : Bool) : List Stmt → Prop
  | [] => True
  | stmt :: rest => stmt.Guarded bound inside ∧ GuardedAll bound inside rest

end

attribute [simp] Stmt.Guarded GuardedAll

@[simp] theorem guardedAll_append {bound : Nat} {inside : Bool} (xs ys : List Stmt) :
    GuardedAll bound inside (xs ++ ys) ↔
      GuardedAll bound inside xs ∧ GuardedAll bound inside ys := by
  induction xs with
  | nil => simp
  | cons x xs ih => simp [ih, and_assoc]

theorem guardedAll_flatMap {α : Type} {bound : Nat} {inside : Bool} {f : α → List Stmt}
    {xs : List α} (h : ∀ x ∈ xs, GuardedAll bound inside (f x)) :
    GuardedAll bound inside (xs.flatMap f) := by
  induction xs with
  | nil => trivial
  | cons x xs ih =>
    rw [List.forall_mem_cons] at h
    rw [List.flatMap_cons, guardedAll_append]
    exact ⟨h.1, ih h.2⟩

/-- The loop over batches leaves the variable of the loop over tiles alone. -/
theorem BatchShape.of_mem_turns {shape : BatchShape} {turn : Turn} {x : TileScope × Turn}
    (hx : x ∈ shape.turns turn) :
    (x.1.count = shape.batchSize ∨ x.1.count = shape.remainder) ∧ x.2 "i" = turn "i" := by
  obtain ⟨n, -, rfl⟩ | ⟨-, ⟨-, rfl⟩ | rfl⟩ := BatchShape.turns_cases hx
  · refine ⟨.inl rfl, ?_⟩
    show turn.set "batch" n "i" = turn "i"
    simp
  · exact ⟨.inr rfl, rfl⟩
  · refine ⟨.inr rfl, ?_⟩
    show turn.set "batch_offset" shape.offset "i" = turn "i"
    simp

theorem TileScope.place_lt_of_mem {scope : TileScope} {turn t : Turn} (ht : t ∈ scope.turns turn) :
    t "i" < scope.count := by
  obtain ⟨n, hn, rfl⟩ := List.mem_map.mp ht
  rw [Turn.set_of_ne _ (by decide), Turn.set_self]
  exact List.mem_range.mp hn

mutual

theorem Stmt.place_lt {bound : Nat} {e : Event} :
    ∀ (stmt : Stmt) {inside : Bool} {scope : TileScope} {turn : Turn},
      stmt.Guarded bound inside → scope.count ≤ bound → (inside = true → turn "i" < bound) →
      e ∈ stmt.unroll scope turn → .place ∈ e.call.places → e.turn "i" < bound
  | .comment _, _, _, _, _, _, _, he, _ => by simp at he
  | .declare _, _, _, _, _, _, _, he, _ => by simp at he
  | .blank, _, _, _, _, _, _, he, _ => by simp at he
  | .call _, _, _, _, h, _, hinside, he, hplace => by
    simp only [Stmt.unroll, List.mem_singleton] at he
    subst he
    exact hinside (h hplace)
  | .batched shape body, _, _, _, h, _, hinside, he, hplace => by
    simp only [Stmt.unroll, List.mem_flatMap] at he
    obtain ⟨x, hx, he⟩ := he
    obtain ⟨hfull, hrest, hbody⟩ := h
    obtain ⟨hcount, hi⟩ := BatchShape.of_mem_turns hx
    refine place_lt_all body hbody (by omega) ?_ he hplace
    rwa [hi]
  | .forEachTile body, _, _, _, h, hcount, _, he, hplace => by
    simp only [Stmt.unroll, List.mem_flatMap] at he
    obtain ⟨t, ht, he⟩ := he
    have hlt := TileScope.place_lt_of_mem ht
    exact place_lt_all body h hcount (fun _ => by omega) he hplace
  | .loop counter count body, _, _, turn, h, hcount, hinside, he, hplace => by
    simp only [Stmt.unroll, List.mem_flatMap] at he
    obtain ⟨n, -, he⟩ := he
    obtain ⟨hcounter, hbody⟩ := h
    refine place_lt_all body hbody hcount ?_ he hplace
    rwa [Turn.set_of_ne turn hcounter.symm]

/-- In a run of guarded statements a call that goes by the place of a tile finds a place within the
bound: the loop over tiles around it set the variable, and no loop in between has changed it. -/
theorem place_lt_all {bound : Nat} {e : Event} :
    ∀ (body : List Stmt) {inside : Bool} {scope : TileScope} {turn : Turn},
      GuardedAll bound inside body → scope.count ≤ bound → (inside = true → turn "i" < bound) →
      e ∈ unrollAll scope turn body → .place ∈ e.call.places → e.turn "i" < bound
  | [], _, _, _, _, _, _, he, _ => by simp at he
  | stmt :: rest, _, _, _, h, hcount, hinside, he, hplace => by
    simp only [unrollAll, List.mem_append] at he
    rcases he with he | he
    · exact Stmt.place_lt stmt h.1 hcount hinside he hplace
    · exact place_lt_all rest h.2 hcount hinside he hplace

end

/-! ## The calls of a stage -/

namespace StageView

variable {v : StageView} {bound : Nat}

theorem guarded_nonlinear (v : StageView) (unit : Nonlinear) :
    GuardedAll bound false (v.nonlinearSection unit).body := by
  unfold nonlinearSection
  cases unit <;> simp [Call.places, Index.place]

theorem guarded_arithmetic (v : StageView) : GuardedAll bound false v.arithmeticSection.body := by
  unfold arithmeticSection
  cases ha : v.stage.spec.arithmetic <;> simp [ha, Call.places]

/-- No call of the unpackers names a place in the accumulator. -/
theorem guarded_unpacking (v : StageView) :
    v.unpacking.init.places = [] ∧ v.unpacking.perTile.Guarded bound true := by
  obtain ⟨-, hinit, hstmt⟩ | ⟨-, pool, dim, -, hinit, hstmt⟩ | ⟨-, hinit, hstmt⟩ |
    ⟨-, -, hinit, hstmt⟩ | ⟨-, -, hinit, hstmt⟩ := v.unpacking_cases <;>
    simp [hinit, hstmt, Call.places]

/-- The sections of a stage go through its own batches. -/
theorem guarded_section (hbound : v.batches.batchSize ≤ bound) (t : Thread) :
    GuardedAll bound false (v.contribution t).body := by
  have hrest : v.batches.remainder ≤ bound := by
    have hlt : v.batches.remainder < v.batches.batchSize := BatchShape.split_remainder_lt ..
    omega
  unfold contribution
  cases t with
  | unpack =>
    obtain ⟨hinit, htile⟩ : v.unpacking.init.places = [] ∧ v.unpacking.perTile.Guarded bound true :=
      v.guarded_unpacking
    have hfirst : ∀ setup, (Call.unpackConfigure setup).places = [] := fun _ => rfl
    have hlater : ∀ setup, (Call.unpackReconfigure setup).places = [] := fun _ => rfl
    have hwait : Call.waitForPack.places = [] := rfl
    by_cases hi : v.index = 0 <;>
      simp [unpackSection, bufferDeclaration, hi, hbound, hrest, hinit, htile, hfirst, hlater,
        hwait]
  | math =>
    have hunits : GuardedAll bound false
        ((v.stage.spec.nonlinear.map v.nonlinearSection).flatMap (·.body)) := by
      refine guardedAll_flatMap fun x hx => ?_
      obtain ⟨unit, -, rfl⟩ := List.mem_map.mp hx
      exact v.guarded_nonlinear unit
    by_cases hi : v.index = 0 <;>
      simp [mathSection, hi, hbound, hrest, hunits, v.guarded_arithmetic, Call.places]
  | pack =>
    cases ha : v.stage.spec.arithmetic <;> by_cases hi : v.index = 0 <;>
      by_cases hl : v.isLast = true <;>
      simp [packSection, bufferDeclaration, ha, hi, hl, hbound, hrest, Call.places]

theorem unrollAll_contribution (v : StageView) (t : Thread) :
    unrollAll .single .start (v.contribution t).body = v.events t := by
  cases t <;> rfl

/-- Only the math thread runs units, and it runs those of the description. -/
theorem mem_nonlinear_of_call (v : StageView) (t : Thread) :
    ∀ call ∈ callsOf (v.contribution t).body, ∀ unit, call.unit? = some unit →
      unit ∈ v.stage.spec.nonlinear := by
  have hnone : ∀ {call : Call}, call.unit? = none → ∀ unit, call.unit? = some unit →
      unit ∈ v.stage.spec.nonlinear := by
    intro call hcall unit hunit
    simp [hcall] at hunit
  cases t with
  | unpack =>
    refine forall_unpack (hnone rfl) (hnone rfl) (hnone rfl) ?_ ?_
    all_goals
      obtain ⟨-, hinit, hstmt⟩ | ⟨-, pool, dim, -, hinit, hstmt⟩ | ⟨-, hinit, hstmt⟩ |
        ⟨-, -, hinit, hstmt⟩ | ⟨-, -, hinit, hstmt⟩ := v.unpacking_cases <;>
        simp [hinit, hstmt, Call.unit?]
  | math =>
    refine forall_math (hnone rfl) (hnone rfl) (hnone rfl) (hnone rfl) ?_ ?_ (hnone rfl)
    · unfold arithmeticSection
      cases ha : v.stage.spec.arithmetic <;> simp [ha, Call.unit?]
    · intro unit hunit
      unfold nonlinearSection
      cases unit <;> simp [Call.unit?, hunit]
  | pack =>
    exact forall_pack (fun _ => hnone rfl) (fun _ => hnone rfl) (hnone rfl) (fun _ _ => hnone rfl)
      (hnone rfl) (hnone rfl) (hnone rfl) (hnone rfl) (hnone rfl)

/-- A unit that addresses tiles by number is run in every batch. -/
theorem exists_event_of_unit {unit : Nonlinear} (hunit : unit ∈ v.stage.spec.nonlinear)
    (hplaces : unit.places ≠ []) (hpos : 0 < v.output.tiles) :
    ∃ e ∈ v.events .math, e.places = unit.places := by
  obtain ⟨x, hx, -, -, -⟩ := exists_turn_of_lt hpos
  cases unit with
  | unary op iterations approximate fill => exact absurd rfl hplaces
  | binary op iterations approximate first second result =>
    refine ⟨⟨.binary v.index op approximate iterations first second result, x.2⟩, ?_, rfl⟩
    have hcall : (⟨.binary v.index op approximate iterations first second result, x.2⟩ : Event) ∈
        unrollAll x.1 x.2
          (v.nonlinearSection (.binary op iterations approximate first second result)).body := by
      simp [nonlinearSection]
    have hchain : (⟨.binary v.index op approximate iterations first second result, x.2⟩ : Event) ∈
        unrollAll x.1 x.2 ((v.stage.spec.nonlinear.map v.nonlinearSection).flatMap (·.body)) := by
      rw [unrollAll_flatMap]
      exact List.mem_flatMap.mpr ⟨_, List.mem_map_of_mem hunit, hcall⟩
    show _ ∈ unrollAll .single .start v.mathSection.body
    simp only [mathSection, unrollAll, Stmt.unroll, unrollAll_append, List.mem_append,
      List.mem_flatMap]
    exact .inr (.inr (.inr (.inr (.inr (.inl ⟨x, hx, .inl (.inr hchain)⟩)))))

end StageView

/-! ## In a pipeline -/

section Built

variable {r : Registry} {specs : List StageSpec} {settings : Settings} {p : Pipeline}

/-- Calls that are not given tiles by number stay within a batch. -/
theorem place_lt_capacity (hr : r.Declared)
    (hp : (Pipeline.build r specs settings).value = .ok p) {v : StageView} (hv : v ∈ p.views)
    {t : Thread} {e : Event} (he : e ∈ v.events t) (hunit : e.call.unit? = none) :
    ∀ n ∈ e.places, n < v.stage.capacity := by
  have hbatched := batched_of_build hr hp v hv
  have hfits := hbatched.fits
  have hone := hbatched.one_le
  have hbound : v.batches.batchSize ≤ v.stage.capacity := by
    show max v.stage.batchSize 1 ≤ v.stage.capacity
    omega
  intro n hn
  obtain ⟨x, hx, rfl⟩ := List.mem_map.mp hn
  rcases Call.eq_place_or_zero hunit hx with rfl | rfl
  · rw [← v.unrollAll_contribution t] at he
    refine place_lt_all _ (v.guarded_section hbound t) ?_ (by simp) he hx
    show 1 ≤ v.stage.capacity
    omega
  · show 0 < v.stage.capacity
    omega

/-- **The accumulator is only exceeded by the numbers that a binary unit is given.** -/
theorem places_within_iff (hr : r.Declared)
    (hp : (Pipeline.build r specs settings).value = .ok p) :
    (∀ t, (p.lower.thread t).events = p.views.flatMap (·.events t)) ∧
    ∀ v ∈ p.views,
      (∀ t, ∀ e ∈ v.events t, e.call.unit? = none → ∀ n ∈ e.places, n < v.stage.capacity) ∧
      (∀ t, ∀ e ∈ v.events t, ∀ unit, e.call.unit? = some unit →
        unit ∈ v.stage.spec.nonlinear ∧ e.places = unit.places) ∧
      (v.WithinCapacity ↔
        ∀ unit ∈ v.stage.spec.nonlinear, ∀ n ∈ unit.places, n < v.stage.capacity) := by
  refine ⟨p.events_thread, fun v hv => ?_⟩
  have hunits : ∀ t, ∀ e ∈ v.events t, ∀ unit, e.call.unit? = some unit →
      unit ∈ v.stage.spec.nonlinear ∧ e.places = unit.places := by
    intro t e he unit hunit
    rw [← v.unrollAll_contribution t] at he
    exact ⟨v.mem_nonlinear_of_call t _ (call_mem_of_mem_unrollAll _ he) unit hunit,
      Event.places_of_unit? hunit⟩
  refine ⟨fun t e he => place_lt_capacity hr hp hv he, hunits, ?_, ?_⟩
  · intro hwithin unit hunit n hn
    have hm := measured_of_build hr hp v hv
    obtain ⟨e, he, hplaces⟩ := StageView.exists_event_of_unit hunit (List.ne_nil_of_mem hn)
      (hm.countedOutput.tiles_pos hm.wholeOutput)
    exact hwithin .math e he n (hplaces ▸ hn)
  · intro hsmall t e he n hn
    cases hunit : e.call.unit? with
    | none => exact place_lt_capacity hr hp hv he hunit n hn
    | some unit =>
      obtain ⟨hmem, hplaces⟩ := hunits t e he unit hunit
      exact hsmall unit hmem n (hplaces ▸ hn)

end Built

/-! ## A sum behind a copy -/

/-- Copies a matrix, and then adds the first two tiles of the accumulator. -/
def sumSpecs (result : Nat) : List StageSpec :=
  [{ loader := ⟨.direct, "a", none, .none, false, false⟩
     arithmetic := .datacopy
     nonlinear := [.unary .exp 32 false Nonlinear.defaultFill, .binary .add 32 false 0 1 result]
     output := "y"
     outputFormat := .float16b
     fidelity := .lofi
     unpackToDest := false }]

theorem places_within_iff_sum :
    ∃ p, (Pipeline.build ⟨[columnInput]⟩ (sumSpecs 0) columnSettings).value = .ok p ∧
      p.views ≠ [] ∧ ∀ v ∈ p.views, v.stage.spec.nonlinear ≠ [] ∧ v.WithinCapacity := by
  obtain ⟨p, hp, hviews⟩ := exists_build_of_any ⟨[columnInput]⟩ (sumSpecs 0) columnSettings
    (fun p => p.views.all fun v => v.stage.spec.nonlinear != [] && v.stage.spec.nonlinear.all
      fun unit => unit.places.all fun n => n < v.stage.capacity) (by decide +kernel)
  refine ⟨p, hp, views_ne_nil_of_build hp, fun v hv => ?_⟩
  have hcheck := List.all_eq_true.mp hviews v hv
  simp only [Bool.and_eq_true, bne_iff_ne, List.all_eq_true, decide_eq_true_eq] at hcheck
  exact ⟨hcheck.1, ((places_within_iff declared_columnInput hp).2 v hv).2.2.mpr hcheck.2⟩

/-- The accumulator holds eight tiles; a sum into the ninth is built, and is run. -/
theorem binary_unit_overruns :
    ∃ p, Registry.Declared ⟨[columnInput]⟩ ∧
      (Pipeline.build ⟨[columnInput]⟩ (sumSpecs 8) columnSettings).value = .ok p ∧
      ∃ v ∈ p.views, ∃ e ∈ v.events .math, ∃ n ∈ e.places, v.stage.capacity ≤ n := by
  obtain ⟨p, hp, hviews⟩ := exists_build_of_any ⟨[columnInput]⟩ (sumSpecs 8) columnSettings
    (fun p => p.views.any fun v =>
      v.stage.spec.nonlinear.any (fun unit => unit.places.contains 8) &&
        0 < v.output.tiles && v.stage.capacity ≤ 8) (by decide +kernel)
  obtain ⟨v, hv, hcheck⟩ := List.any_eq_true.mp hviews
  simp only [Bool.and_eq_true, List.any_eq_true, List.contains_iff_mem, decide_eq_true_eq] at hcheck
  obtain ⟨⟨⟨unit, hunit, hn⟩, hpos⟩, hcapacity⟩ := hcheck
  obtain ⟨e, he, hplaces⟩ := StageView.exists_event_of_unit hunit (List.ne_nil_of_mem hn) hpos
  exact ⟨p, declared_columnInput, hp, v, hv, e, he, 8, hplaces ▸ hn, hcapacity⟩

end TileFusion
