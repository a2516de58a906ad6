import TileFusion.Registry
import TileFusion.Build.Resolve
import Mathlib.Data.List.Nodup

/-!
# Registries that declarations can reach

A caller fills a registry by declaring inputs and outputs, and a build goes on filling it. This file
says what every such registry has in common:

> `Registry.WellFormed`: the id of an operand is its place, no name is used twice, and every operand
> is `Sound` - settled contents are those of its shape and format, and they fit where it is pinned.

`Registry.Declared` is the caller's side (any sequence of successful declarations), and `settle` is
the build's side: the one change that a resolved stage makes. Both keep a registry well-formed
(`Declared.wellFormed`, `wellFormed_settle`).

In a well-formed registry names, ids and places are three keys for the same thing, so the changes of
a registry are all stated through `find?`.
-/

namespace TileFusion

/-! ## Sound operands -/

/-- What holds of an operand between its declaration and its placement. -/
structure Operand.Sound (o : Operand) : Prop where
  /-- Settled contents are those of their shape and format. -/
  contents_eq : ∀ c, o.contents = some c → Contents.of? c.dims c.format = some c
  /-- Settled contents fit at a requested address. -/
  fits : ∀ c, o.contents = some c → Operand.fitsPin o.location c = true
  /-- No address has been handed out yet. -/
  unassigned : ∀ a, o.location ≠ .assigned a
  /-- The contents of an input are known. -/
  settled_of_input : o.role = .input → o.isResolved = true
  /-- A buffer without contents waits for a stage. -/
  producer_of_pending : o.isResolved = false → ∃ p, o.producer = some p

/-- The contents of a shape and a format, spelled out. -/
theorem Contents.of?_eq_some_iff {d : Dims} {f : DataFormat} {c : Contents} :
    Contents.of? d f = some c ↔
      d.tileRows * d.tileCols < wordLimit ∧
        d.tileRows * d.tileCols * f.tileBytes < wordLimit ∧
        c = ⟨d, f, d.tileRows * d.tileCols, d.tileRows * d.tileCols * f.tileBytes⟩ := by
  unfold Contents.of? Dims.tileCount?
  by_cases ht : d.tileRows * d.tileCols < wordLimit
  · by_cases hs : d.tileRows * d.tileCols * f.tileBytes < wordLimit
    · simp [word?, ht, hs, eq_comm]
    · simp [word?, ht, hs]
  · simp [word?, ht]

theorem Contents.dims_of? {d : Dims} {f : DataFormat} {c : Contents}
    (h : Contents.of? d f = some c) : c.dims = d := by
  rw [Contents.of?_eq_some_iff] at h
  rw [h.2.2]

theorem Contents.format_of? {d : Dims} {f : DataFormat} {c : Contents}
    (h : Contents.of? d f = some c) : c.format = f := by
  rw [Contents.of?_eq_some_iff] at h
  rw [h.2.2]

/-- Settling an operand takes contents that can be counted and that fit where it is pinned. -/
theorem Operand.resolve?_eq_some_iff {o o' : Operand} {d : Dims} {f : DataFormat} :
    o.resolve? d f = some o' ↔
      ∃ c, Contents.of? d f = some c ∧ Operand.fitsPin o.location c = true ∧
        o' = { o with contents := some c } := by
  unfold Operand.resolve?
  cases hc : Contents.of? d f with
  | none => simp
  | some c =>
    by_cases hp : Operand.fitsPin o.location c = true
    · simp only [Option.bind_eq_bind, Option.bind_some, if_pos hp, Option.pure_def,
        Option.some.injEq]
      constructor
      · rintro rfl
        exact ⟨c, rfl, hp, rfl⟩
      · rintro ⟨_, rfl, -, rfl⟩
        rfl
    · simp [hp]

theorem Operand.isResolved_iff {o : Operand} : o.isResolved = true ↔ ∃ c, o.contents = some c := by
  unfold Operand.isResolved
  rw [Option.isSome_iff_exists]

theorem Operand.isResolved_eq_false_iff {o : Operand} :
    o.isResolved = false ↔ o.contents = none := by
  unfold Operand.isResolved
  cases o.contents <;> simp

theorem Operand.dims_of_contents {o : Operand} {c : Contents} (h : o.contents = some c) :
    o.dims = c.dims := by
  rw [Operand.dims, h]
  rfl

theorem Operand.format_of_contents {o : Operand} {c : Contents} (h : o.contents = some c) :
    o.format = c.format := by
  rw [Operand.format, h]
  rfl

namespace Registry

/-! ## Well-formed registries -/

/-- Places, ids and names agree, and every operand is sound. -/
structure WellFormed (r : Registry) : Prop where
  /-- The id of an operand is its place. -/
  ids : ∀ (i : Nat) (o : Operand), r.operands[i]? = some o → o.id = i
  /-- No name is used twice. -/
  names : (r.operands.map (·.name)).Nodup
  /-- Every operand is sound. -/
  sound : ∀ o ∈ r.operands, o.Sound

theorem wellFormed_empty : empty.WellFormed :=
  ⟨by simp [empty], by simp [empty], by simp [empty]⟩

/-- Two operands of one name are the same. -/
theorem WellFormed.eq_of_name {r : Registry} (h : r.WellFormed) {x y : Operand}
    (hx : x ∈ r.operands) (hy : y ∈ r.operands) (he : x.name = y.name) : x = y :=
  List.inj_on_of_nodup_map h.names hx hy he

/-- In a well-formed registry an id is a place, so that it leads back to its operand. -/
theorem WellFormed.operand?_id {r : Registry} (h : r.WellFormed) {o : Operand}
    (ho : o ∈ r.operands) : r.operand? o.id = some o := by
  obtain ⟨i, hi⟩ := List.mem_iff_getElem?.mp ho
  have hid : o.id = i := h.ids i o hi
  rw [operand?, hid]
  exact hi

/-- Two operands of one id are the same. -/
theorem WellFormed.eq_of_id {r : Registry} (h : r.WellFormed) {x y : Operand}
    (hx : x ∈ r.operands) (hy : y ∈ r.operands) (he : x.id = y.id) : x = y := by
  have h1 := h.operand?_id hx
  rw [he, h.operand?_id hy] at h1
  exact (Option.some.inj h1).symm

theorem mem_of_find? {r : Registry} {name : String} {o : Operand} (h : r.find? name = some o) :
    o ∈ r.operands :=
  List.mem_of_find?_eq_some h

/-- Where no name is used twice, an operand is found under its own. -/
theorem find?_name_of_nodup {r : Registry} (h : (r.operands.map (·.name)).Nodup) {o : Operand}
    (ho : o ∈ r.operands) : r.find? o.name = some o := by
  cases hf : r.find? o.name with
  | none =>
    have hne := List.find?_eq_none.mp hf o ho
    simp at hne
  | some x => rw [List.inj_on_of_nodup_map h (mem_of_find? hf) ho (name_of_find? hf)]

/-- Names do not repeat, so that looking one up finds the operand that has it. -/
theorem WellFormed.find?_name {r : Registry} (h : r.WellFormed) {o : Operand}
    (ho : o ∈ r.operands) : r.find? o.name = some o :=
  find?_name_of_nodup h.names ho

theorem find?_eq_none_iff {r : Registry} {name : String} :
    r.find? name = none ↔ ∀ o ∈ r.operands, o.name ≠ name := by
  unfold find?
  rw [List.find?_eq_none]
  simp

theorem contains_eq_false_iff {r : Registry} {name : String} :
    r.contains name = false ↔ r.find? name = none := by
  unfold contains
  cases r.find? name <;> simp

/-! ## Adding an operand -/

/-- A sound operand under a new name, with the next id, may be added. -/
theorem wellFormed_push {r : Registry} {o : Operand} (h : r.WellFormed) (hid : o.id = r.size)
    (hname : r.find? o.name = none) (ho : o.Sound) : (r.push o).WellFormed := by
  refine ⟨?_, ?_, ?_⟩
  · intro i x hx
    rcases Nat.lt_or_ge i r.operands.length with hi | hi
    · exact h.ids i x (by rwa [push, List.getElem?_append_left hi] at hx)
    · rw [push, List.getElem?_append_right hi] at hx
      obtain ⟨hz, hxo⟩ := List.getElem?_eq_some_iff.mp hx
      have hzero : i - r.operands.length = 0 := by simpa using hz
      have hxo' : o = x := by simpa [hzero] using hxo
      rw [← hxo', hid, size]
      omega
  · simp only [push, List.map_append, List.map_cons, List.map_nil]
    refine List.Nodup.append h.names (by simp) ?_
    rw [List.disjoint_singleton]
    intro hmem
    obtain ⟨x, hx, hxo⟩ := List.mem_map.mp hmem
    exact find?_eq_none_iff.mp hname x hx hxo
  · intro x hx
    rcases List.mem_append.mp hx with hx | hx
    · exact h.sound x hx
    · rw [List.mem_singleton.mp hx]
      exact ho

theorem find?_push_of_none {r : Registry} {o : Operand} (hname : r.find? o.name = none)
    (name : String) :
    (r.push o).find? name = if name = o.name then some o else r.find? name := by
  rw [find?_push]
  by_cases h : name = o.name
  · rw [h, hname]
    simp
  · rw [if_neg h, if_neg (fun e => h e.symm)]
    simp

/-! ## Changing an operand -/

theorem modify_push {r : Registry} {o : Operand} (hid : o.id = r.size) (o' : Operand) :
    ((r.push o).modify o.id fun _ => o') = r.push o' := by
  unfold modify push
  congr 1
  refine List.ext_getElem? fun i => ?_
  rw [List.getElem?_modify, hid, size]
  rcases Nat.lt_trichotomy i r.operands.length with hi | rfl | hi
  · rw [List.getElem?_append_left hi, List.getElem?_append_left hi]
    simp [Nat.ne_of_gt hi]
  · simp
  · rw [List.getElem?_eq_none (by simp; omega), List.getElem?_eq_none (by simp; omega)]
    rfl

/-- Places are ids, so changing the operand of an id changes the operand of a name. -/
theorem operands_modify {r : Registry} {o : Operand} (h : r.WellFormed) (ho : o ∈ r.operands)
    (o' : Operand) :
    (r.modify o.id fun _ => o').operands =
      r.operands.map fun x => if x.name = o.name then o' else x := by
  refine List.ext_getElem? fun i => ?_
  rw [modify, List.getElem?_modify, List.getElem?_map]
  cases hx : r.operands[i]? with
  | none => rfl
  | some x =>
    have hxi : x.id = i := h.ids i x hx
    have hmem : x ∈ r.operands := List.mem_of_getElem? hx
    by_cases he : x.name = o.name
    · have hxo : x = o := h.eq_of_name hmem ho he
      have hi : o.id = i := by rw [← hxo, hxi]
      simp [hi, he]
    · have hi : o.id ≠ i := by
        intro hi
        exact he (congrArg Operand.name (h.eq_of_id hmem ho (by rw [hxi, hi])))
      simp [hi, he]

/-- Settling an operand is seen under its name, and under no other. -/
theorem find?_modify {r : Registry} {o o' : Operand} (h : r.WellFormed) (ho : o ∈ r.operands)
    (hname : o'.name = o.name) (name : String) :
    (r.modify o.id fun _ => o').find? name = if name = o.name then some o' else r.find? name := by
  unfold find?
  rw [operands_modify h ho o', List.find?_map]
  by_cases hn : name = o.name
  · subst hn
    have hp : ((fun x => x.name == o.name) ∘ fun x => if x.name = o.name then o' else x) =
        fun x => x.name == o.name := by
      funext x
      by_cases hx : x.name = o.name <;> simp [hx, hname]
    have hfound : r.operands.find? (fun x => x.name == o.name) = some o := h.find?_name ho
    rw [hp, hfound]
    simp
  · have hp : ((fun x => x.name == name) ∘ fun x => if x.name = o.name then o' else x) =
        fun x => x.name == name := by
      funext x
      by_cases hx : x.name = o.name
      · simp [hx, hname]
      · simp [hx]
    rw [hp, if_neg hn]
    cases hf : r.operands.find? (fun x => x.name == name) with
    | none => rfl
    | some x =>
      have hxn : x.name = name := name_of_find? hf
      have hne : x.name ≠ o.name := by rw [hxn]; exact hn
      simp [hne]

/-- An operand may be replaced by a sound one with its name and id. -/
theorem wellFormed_modify {r : Registry} {o o' : Operand} (h : r.WellFormed)
    (ho : o ∈ r.operands) (hname : o'.name = o.name) (hid : o'.id = o.id) (hs : o'.Sound) :
    (r.modify o.id fun _ => o').WellFormed := by
  refine ⟨?_, ?_, ?_⟩
  · intro i x hx
    rw [operands_modify h ho o', List.getElem?_map] at hx
    cases hy : r.operands[i]? with
    | none => rw [hy] at hx; simp at hx
    | some y =>
      have hyi := h.ids i y hy
      rw [hy] at hx
      by_cases hyo : y.name = o.name
      · have heq := h.eq_of_name (List.mem_of_getElem? hy) ho hyo
        simp only [Option.map_some, if_pos hyo, Option.some.injEq] at hx
        rw [← hx, hid, ← heq, hyi]
      · simp only [Option.map_some, if_neg hyo, Option.some.injEq] at hx
        rw [← hx, hyi]
  · rw [operands_modify h ho o', List.map_map]
    have hcomp : (fun x : Operand => x.name) ∘ (fun x => if x.name = o.name then o' else x) =
        fun x => x.name := by
      funext x
      by_cases hx : x.name = o.name <;> simp [hx, hname]
    rw [hcomp]
    exact h.names
  · intro x hx
    rw [operands_modify h ho o'] at hx
    obtain ⟨y, hy, rfl⟩ := List.mem_map.mp hx
    by_cases hyo : y.name = o.name
    · rw [if_pos hyo]
      exact hs
    · rw [if_neg hyo]
      exact h.sound y hy

/-! ## Registries of a caller -/

/-- The registries that a caller can make: any sequence of successful declarations. Failing ones
leave the registry as it was, so they need no case of their own. -/
inductive Declared : Registry → Prop where
  | empty : Declared Registry.empty
  | input {r r' : Registry} {o : Operand} (name : String) (dims : Dims) (format : DataFormat)
      (address : Option Nat) (h : Declared r)
      (hd : (r.declareInput name dims format address).value = .ok (r', o)) : Declared r'
  | output {r r' : Registry} {o : Operand} (role : Role) (name : String) (producer : Nat)
      (address : Option Nat) (h : Declared r) (hrole : role = .intermediate ∨ role = .output)
      (hd : r.declareOutput role name producer address = .ok (r', o)) : Declared r'

/-- A buffer that no build has touched: inputs are settled and have no producer, all others wait
for theirs. -/
def Untouched (o : Operand) : Prop :=
  (o.role = .input ∧ o.isResolved = true ∧ o.producer = none) ∨
    (o.role ≠ .input ∧ o.isResolved = false ∧ ∃ p, o.producer = some p)

/-- What a declared input leaves behind: the name was free, its contents were settled at once, and it
is the only new operand. -/
theorem declareInput_eq_ok {r r' : Registry} {o : Operand} {name : String} {dims : Dims}
    {format : DataFormat} {address : Option Nat}
    (h : (r.declareInput name dims format address).value = .ok (r', o)) :
    r.find? name = none ∧ (r.fresh name .input none address).resolve? dims format = some o ∧
      r' = r.push o := by
  unfold declareInput at h
  by_cases hc : r.contains name = true
  · rw [if_pos hc] at h
    simp at h
  · rw [if_neg hc] at h
    have hnone := contains_eq_false_iff.mp (Bool.eq_false_iff.mpr hc)
    split at h
    · simp at h
    · next o' ho' =>
      simp only [Logged.value_bind, Logged.value_pure, Except.ok.injEq, Prod.mk.injEq] at h
      obtain ⟨h1, rfl⟩ := h
      exact ⟨hnone, ho', h1.symm⟩

/-- What a declared output leaves behind: the name was free, and nothing is known of its contents yet. -/
theorem declareOutput_eq_ok {r r' : Registry} {o : Operand} {role : Role} {name : String}
    {producer : Nat} {address : Option Nat}
    (h : r.declareOutput role name producer address = .ok (r', o)) :
    r.find? name = none ∧ o = r.fresh name role (some producer) address ∧ r' = r.push o := by
  unfold declareOutput at h
  by_cases hc : r.contains name = true
  · rw [if_pos hc] at h
    simp at h
  · rw [if_neg hc] at h
    have hnone := contains_eq_false_iff.mp (Bool.eq_false_iff.mpr hc)
    simp only [Except.ok.injEq, Prod.mk.injEq] at h
    obtain ⟨h1, h2⟩ := h
    exact ⟨hnone, h2.symm, by rw [← h1, h2]⟩

/-- A requested location is never one that placement hands out. -/
theorem ofRequest_ne_assigned (address : Option Nat) (a : Nat) :
    Location.ofRequest address ≠ .assigned a := by
  cases address <;> simp [Location.ofRequest]

theorem sound_fresh_output (r : Registry) (name : String) (role : Role) (producer : Nat)
    (address : Option Nat) (hrole : role ≠ .input) :
    (r.fresh name role (some producer) address).Sound :=
  ⟨by simp [fresh], by simp [fresh], ofRequest_ne_assigned address,
    fun h => absurd h hrole, fun _ => ⟨producer, rfl⟩⟩

/-- Settling an operand keeps it sound. -/
theorem sound_settled {o : Operand} {d : Dims} {f : DataFormat} {c : Contents}
    (hun : ∀ a, o.location ≠ .assigned a) (hc : Contents.of? d f = some c)
    (hp : Operand.fitsPin o.location c = true) : { o with contents := some c }.Sound := by
  refine ⟨?_, ?_, hun, fun _ => rfl, fun h => by simp [Operand.isResolved] at h⟩
  · intro c' hc'
    obtain rfl := Option.some.inj hc'
    rw [Contents.dims_of? hc, Contents.format_of? hc]
    exact hc
  · intro c' hc'
    obtain rfl := Option.some.inj hc'
    exact hp

theorem wellFormed_declareInput {r r' : Registry} {o : Operand} {name : String} {dims : Dims}
    {format : DataFormat} {address : Option Nat} (h : r.WellFormed)
    (hd : (r.declareInput name dims format address).value = .ok (r', o)) : r'.WellFormed := by
  obtain ⟨hnone, hres, rfl⟩ := declareInput_eq_ok hd
  obtain ⟨c, hc, hp, rfl⟩ := Operand.resolve?_eq_some_iff.mp hres
  exact wellFormed_push h rfl hnone (sound_settled (ofRequest_ne_assigned _) hc hp)

theorem wellFormed_declareOutput {r r' : Registry} {o : Operand} {role : Role} {name : String}
    {producer : Nat} {address : Option Nat} (h : r.WellFormed)
    (hrole : role = .intermediate ∨ role = .output)
    (hd : r.declareOutput role name producer address = .ok (r', o)) : r'.WellFormed := by
  obtain ⟨hnone, rfl, rfl⟩ := declareOutput_eq_ok hd
  refine wellFormed_push h rfl hnone (sound_fresh_output _ _ _ _ _ ?_)
  rcases hrole with rfl | rfl <;> simp

/-- Declarations only ever make well-formed registries. -/
theorem Declared.wellFormed {r : Registry} (h : r.Declared) : r.WellFormed := by
  induction h with
  | empty => exact wellFormed_empty
  | input _ _ _ _ _ hd ih => exact wellFormed_declareInput ih hd
  | output _ _ _ _ _ hrole hd ih => exact wellFormed_declareOutput ih hrole hd

/-- Declarations settle inputs and leave the operands of stages open. -/
theorem Declared.untouched {r : Registry} (h : r.Declared) : ∀ o ∈ r.operands, Untouched o := by
  induction h with
  | empty => simp [Registry.empty]
  | input _ _ _ _ _ hd ih =>
    obtain ⟨-, hres, rfl⟩ := declareInput_eq_ok hd
    obtain ⟨c, -, -, rfl⟩ := Operand.resolve?_eq_some_iff.mp hres
    intro o ho
    rcases List.mem_append.mp ho with ho | ho
    · exact ih o ho
    · rw [List.mem_singleton.mp ho]
      exact Or.inl ⟨rfl, rfl, rfl⟩
  | output _ _ _ _ _ hrole hd ih =>
    obtain ⟨-, rfl, rfl⟩ := declareOutput_eq_ok hd
    intro o ho
    rcases List.mem_append.mp ho with ho | ho
    · exact ih o ho
    · rw [List.mem_singleton.mp ho]
      refine Or.inr ⟨?_, rfl, _, rfl⟩
      rcases hrole with rfl | rfl <;> simp [fresh]

/-! ## The change that a resolved stage makes -/

/-- The output operand of a resolved stage: a declaration made for it, or a new one. -/
def settledOutput (r : Registry) (site : Site) (c : Contents) : Operand :=
  match r.find? site.spec.output with
  | none =>
    { r.fresh site.spec.output site.outputRole (some site.index) none with contents := some c }
  | some o => { o with role := site.outputRole, contents := some c }

/-- The registry that a resolved stage leaves: its output holds the contents `c`. -/
def settle (r : Registry) (site : Site) (c : Contents) : Registry :=
  match r.find? site.spec.output with
  | none => r.push (r.settledOutput site c)
  | some o => r.modify o.id fun _ => r.settledOutput site c

/-- Where the output of a stage is asked to lie. -/
def outputLocation (r : Registry) (site : Site) : Location :=
  ((r.find? site.spec.output).map (·.location)).getD .floating

@[simp] theorem name_settledOutput (r : Registry) (site : Site) (c : Contents) :
    (r.settledOutput site c).name = site.spec.output := by
  unfold settledOutput
  split
  · rfl
  · next o ho =>
    show o.name = site.spec.output
    exact name_of_find? ho

@[simp] theorem contents_settledOutput (r : Registry) (site : Site) (c : Contents) :
    (r.settledOutput site c).contents = some c := by
  unfold settledOutput
  split <;> rfl

@[simp] theorem location_settledOutput (r : Registry) (site : Site) (c : Contents) :
    (r.settledOutput site c).location = r.outputLocation site := by
  unfold settledOutput outputLocation
  split
  · next h => rw [h]; rfl
  · next o h => rw [h]; rfl

/-- The output of a resolved stage is sound: its contents are those of its shape, and at a requested
address they fit. -/
theorem sound_settledOutput {r : Registry} {site : Site} {d : Dims} {f : DataFormat}
    {c : Contents} (h : r.WellFormed) (hc : Contents.of? d f = some c)
    (hp : Operand.fitsPin (r.outputLocation site) c = true) : (r.settledOutput site c).Sound := by
  unfold settledOutput outputLocation at *
  cases hf : r.find? site.spec.output with
  | none =>
    rw [hf] at hp
    exact sound_settled (ofRequest_ne_assigned none) hc hp
  | some o =>
    rw [hf] at hp
    exact sound_settled (o := { o with role := site.outputRole })
      (h.sound o (mem_of_find? hf)).unassigned hc hp

/-- Only the output of the stage is changed. -/
theorem find?_settle {r : Registry} (h : r.WellFormed) (site : Site) (c : Contents)
    (name : String) :
    (r.settle site c).find? name =
      if name = site.spec.output then some (r.settledOutput site c) else r.find? name := by
  unfold settle
  cases hf : r.find? site.spec.output with
  | none =>
    rw [find?_push_of_none (by rw [name_settledOutput]; exact hf), name_settledOutput]
  | some o =>
    rw [find?_modify h (mem_of_find? hf) (by rw [name_settledOutput, name_of_find? hf]),
      name_of_find? hf]

/-- Settling the output of a stage keeps the registry well-formed, whether the name is new or was
declared before. -/
theorem wellFormed_settle {r : Registry} {site : Site} {d : Dims} {f : DataFormat} {c : Contents}
    (h : r.WellFormed) (hc : Contents.of? d f = some c)
    (hp : Operand.fitsPin (r.outputLocation site) c = true) : (r.settle site c).WellFormed := by
  have hs := sound_settledOutput h hc hp
  unfold settle
  cases hf : r.find? site.spec.output with
  | none =>
    refine wellFormed_push h ?_ (by rw [name_settledOutput]; exact hf) hs
    rw [settledOutput, hf]
    rfl
  | some o =>
    refine wellFormed_modify h (mem_of_find? hf) ?_ ?_ hs
    · rw [name_settledOutput, name_of_find? hf]
    · rw [settledOutput, hf]

end Registry

end TileFusion
