import TileFusion.Proofs.CheckedStages

/-!
# Builds with checks

Behind the stages comes placement, which adds sizes to addresses without looking whether the sum
still fits in a word. Here the whole build is run on the catalog, with that sum and every access as
one that may fail.

> `InStep.build_eq`: the build does not stop, and ends as the build on the registry does.

An end of a buffer fits since its contents were only settled when they did (`Operand.Sound.fits`),
and because no operand has been handed an address before placement begins.
-/

namespace TileFusion

/-- A run over a list succeeds when every entry does. -/
theorem mapM_eq_some {α β : Type} {f : α → Option β} {xs : List α} :
    ∀ {ys : List β}, xs.map f = ys.map some → xs.mapM f = some ys := by
  induction xs with
  | nil =>
    intro ys h
    cases ys with
    | nil => rfl
    | cons y ys => simp at h
  | cons x xs ih =>
    intro ys h
    cases ys with
    | nil => simp at h
    | cons y ys =>
      obtain ⟨hx, hxs⟩ := List.cons.inj h
      rw [List.mapM_cons, hx, ih hxs]
      rfl

/-! ## Extents -/

/-- The memory that an operand takes, if any; `none` if its end does not fit in a word. -/
def Operand.checkedExtent? (o : Operand) : Option (Option Extent) :=
  match o.contents, o.location.address? with
  | some contents, some address =>
    (Word.add? address contents.size).map fun stop => some ⟨address, stop, o.id, o.name⟩
  | _, _ => some none

theorem Operand.Sound.checkedExtent?_eq {o : Operand} (h : o.Sound) :
    o.checkedExtent? = some o.extent? := by
  unfold Operand.checkedExtent? Operand.extent?
  cases hc : o.contents with
  | none => rfl
  | some c =>
    cases hl : o.location with
    | floating => rfl
    | assigned a => exact absurd hl (h.unassigned a)
    | pinned a =>
      have hfit := h.fits c hc
      rw [hl, fitsPin, Option.isSome_iff_exists] at hfit
      obtain ⟨n, hn⟩ := hfit
      have hsum : Word.add? a c.size = some (a + c.size) :=
        Word.add?_of_lt (word?_eq_some_iff.mp hn).1
      simp [Location.address?, hsum]

/-! ## Places -/

/-- The end of a place that was found fits in a word. -/
theorem lt_of_firstFit {size a : Nat} {taken : List Extent} :
    ∀ {start : Nat}, firstFit size start taken = some a → a + size < wordLimit := by
  induction taken with
  | nil =>
    intro start h
    simp only [firstFit, Option.bind_eq_bind, Option.bind_eq_some_iff] at h
    obtain ⟨stop, hstop, hstart⟩ := h
    rw [← Option.some.inj hstart]
    exact (word?_eq_some_iff.mp hstop).1
  | cons x rest ih =>
    intro start h
    simp only [firstFit, Option.bind_eq_bind, Option.bind_eq_some_iff] at h
    obtain ⟨stop, hstop, h⟩ := h
    split at h
    next =>
      rw [← Option.some.inj h]
      exact (word?_eq_some_iff.mp hstop).1
    next =>
      split at h
      next =>
        obtain ⟨next, -, hnext⟩ := Option.bind_eq_some_iff.mp h
        exact ih hnext
      next => exact ih h

/-- Finds a place for the operand of an id, if it needs one, and adds what it takes. -/
def placeAt (os : List Operand) (taken : List Extent) (id : Nat) :
    Option (Except RegistryError (List Operand × List Extent)) := do
  let o ← os[id]?
  match o.location, o.contents with
  | .floating, some contents =>
    match firstFit contents.size baseAddress taken with
    | none => some (.error (.tooLarge o.name))
    | some start => do
      let stop ← Word.add? start contents.size
      some (.ok (os.set id { o with location := .assigned start },
        insertExtent ⟨start, stop, id, o.name⟩ taken))
  | _, _ => some (.ok (os, taken))

/-- Finds places for the operands of some ids, in that order. -/
def placeEach (os : List Operand) (taken : List Extent) :
    List Nat → Option (Except RegistryError (List Operand))
  | [] => some (.ok os)
  | id :: ids => do
    match ← placeAt os taken id with
    | .error e => some (.error e)
    | .ok (os', taken') => placeEach os' taken' ids

section PlaceAt

variable {os : List Operand} {taken : List Extent} {id : Nat} {o : Operand}

theorem placeAt_of_keep (ho : os[id]? = some o) (h : o.location ≠ .floating ∨ o.contents = none) :
    placeAt os taken id = some (.ok (os, taken)) := by
  rw [placeAt, ho, Option.bind_eq_bind, Option.bind_some]
  split
  next hloc hc =>
    rcases h with h | h
    · exact absurd hloc h
    · rw [h] at hc
      simp at hc
  next => rfl

theorem placeAt_of_place {c : Contents} {a : Nat} (ho : os[id]? = some o)
    (hloc : o.location = .floating) (hc : o.contents = some c)
    (ha : firstFit c.size baseAddress taken = some a) :
    placeAt os taken id = some (.ok (os.set id { o with location := .assigned a },
      insertExtent ⟨a, a + c.size, id, o.name⟩ taken)) := by
  simp [placeAt, ho, hloc, hc, ha, Word.add?_of_lt (lt_of_firstFit ha)]

theorem placeAt_of_none {c : Contents} (ho : os[id]? = some o) (hloc : o.location = .floating)
    (hc : o.contents = some c) (ha : firstFit c.size baseAddress taken = none) :
    placeAt os taken id = some (.error (.tooLarge o.name)) := by
  simp [placeAt, ho, hloc, hc, ha]

end PlaceAt

/-- What is behind the operands that have been looked at is placed as by a run over a list. -/
theorem placeEach_eq (rest : List Operand) :
    ∀ (front : List Operand) (taken : List Extent),
      (∀ k o, rest[k]? = some o → o.id = front.length + k) →
      placeEach (front ++ rest) taken (List.range' front.length rest.length) =
        some ((placeFloating taken rest).value.map (front ++ ·)) := by
  induction rest with
  | nil =>
    intro front taken _
    rfl
  | cons o rest ih =>
    intro front taken hid
    have hat : (front ++ o :: rest)[front.length]? = some o := by simp
    have hown : o.id = front.length := hid 0 o rfl
    -- the operand joins those in front, as it is or with an address
    have hnext : ∀ (o' : Operand) (taken' : List Extent),
        placeEach (front ++ o' :: rest) taken' (List.range' (front.length + 1) rest.length) =
          some (((placeFloating taken' rest).value.map (o' :: ·)).map (front ++ ·)) := by
      intro o' taken'
      have h := ih (front ++ [o']) taken' fun k x hx => by
        rw [hid (k + 1) x hx, List.length_append, List.length_singleton]
        omega
      rw [List.append_assoc, List.length_append, List.length_singleton] at h
      refine h.trans ?_
      cases (placeFloating taken' rest).value <;> simp [Except.map]
    rw [List.length_cons, List.range'_succ, placeEach]
    by_cases hkeep : o.location ≠ .floating ∨ o.contents = none
    · rw [placeAt_of_keep hat hkeep, placeFloating_of_keep hkeep]
      exact hnext o taken
    · simp only [ne_eq, not_or, not_not] at hkeep
      obtain ⟨hloc, hsome⟩ := hkeep
      obtain ⟨c, hc⟩ := Option.ne_none_iff_exists'.mp hsome
      cases ha : firstFit c.size baseAddress taken with
      | none =>
        rw [placeAt_of_none hat hloc hc ha, placeFloating_of_none hloc hc ha]
        rfl
      | some a =>
        have hset : ∀ o', (front ++ o :: rest).set front.length o' = front ++ o' :: rest := by simp
        rw [placeAt_of_place hat hloc hc ha, placeFloating_of_place hloc hc ha, hown, hset]
        exact hnext _ _

/-! ## Placement -/

namespace Catalog

/-- The memory that is taken before any operand is placed; `none` if an end does not fit. -/
def extents? (c : Catalog) : Option (List Extent) :=
  (c.operands.mapM Operand.checkedExtent?).map fun xs => (xs.filterMap id).mergeSort Extent.before

/-- Two buffers that share memory, by the names that their ids stand for. -/
def overlap? (c : Catalog) (x y : Extent) : Option RegistryError := do
  let second ← c.operands[y.owner]?
  let first ← c.operands[x.owner]?
  some (.overlap second.name first.name)

/-- Gives every settled operand an address. -/
def allocate (c : Catalog) : Option (Except RegistryError (List Operand)) := do
  let taken ← c.extents?
  match firstClash taken with
  | some (x, y) => (c.overlap? x y).map .error
  | none => placeEach c.operands taken (List.range c.operands.length)

variable {c : Catalog} {r : Registry}

theorem InStep.extents?_eq (h : InStep c r) (hr : r.WellFormed) :
    c.extents? = some r.extents := by
  have hall : r.operands.map Operand.checkedExtent? =
      (r.operands.map Operand.extent?).map some := by
    rw [List.map_map]
    exact List.map_congr_left fun o ho => (hr.sound o ho).checkedExtent?_eq
  rw [extents?, h.operands_eq, mapM_eq_some hall, Option.map_some, List.filterMap_map]
  rfl

theorem InStep.allocate_eq (h : InStep c r) (hr : r.WellFormed) :
    c.allocate = some (r.allocate.value.map (·.operands)) := by
  unfold allocate Registry.allocate
  rw [h.extents?_eq hr, Option.bind_eq_bind, Option.bind_some]
  cases hclash : firstClash r.extents with
  | some clash =>
    obtain ⟨x, y⟩ := clash
    obtain ⟨hx, hy⟩ := mem_of_firstClash hclash
    obtain ⟨o, ho, -, hxo, hxn⟩ := Registry.exists_of_mem_extents hx
    obtain ⟨p, hp, -, hyp, hyn⟩ := Registry.exists_of_mem_extents hy
    simp [overlap?, hxo, hyp, h.operand?_eq hr ho, h.operand?_eq hr hp, hxn, hyn, Except.map]
  | none =>
    have hids : ∀ k o, r.operands[k]? = some o → o.id = ([] : List Operand).length + k := by
      intro k o ho
      rw [List.length_nil, Nat.zero_add]
      exact hr.ids k o ho
    have hplaced := placeEach_eq r.operands [] r.extents hids
    rw [h.operands_eq, List.range_eq_range']
    refine hplaced.trans ?_
    simp only [Logged.value_bind, Logged.value_pure]
    cases (placeFloating r.extents r.operands).value <;> rfl

/-! ## The loop over the stages -/

/-- How far a build has come. -/
structure Progress where
  /-- The catalog as the stages so far have left it. -/
  catalog : Catalog
  /-- What was found wrong. -/
  errors : List BuildError
  /-- The stages that could not be resolved. -/
  failed : List Nat
  /-- The stages that were resolved. -/
  stages : List Stage

/-- A build on a catalog and one on a registry have come equally far. -/
structure Progress.InStep (p : Progress) (state : BuildState) : Prop where
  catalog : p.catalog.InStep state.registry
  errors_eq : p.errors = state.errors
  failed_eq : p.failed = state.failed
  stages_eq : p.stages = state.stages

/-- Resolves the stage of a place. -/
def Progress.step (settings : Settings) (specs : List StageSpec) (p : Progress) (index : Nat) :
    Option Progress := do
  let outcome ← p.catalog.resolveStage settings specs p.failed index
  let errors := p.errors ++ outcome.causes.map fun cause => ⟨index, cause⟩
  match outcome.stage with
  | none => some ⟨outcome.catalog, errors, p.failed ++ [index], p.stages⟩
  | some stage => some ⟨outcome.catalog, errors, p.failed, p.stages ++ [stage]⟩

/-- The error that a failed placement is reported as; `none` if it names no operand. -/
def placementError? (c : Catalog) (error : RegistryError) : Option BuildError :=
  (c.get error.name).map fun
    | .ok o => ⟨o.producer.getD 0, .ofRegistry error⟩
    | .error _ => ⟨0, .ofRegistry error⟩

/-- Builds a pipeline on top of declared operands. -/
def build (c : Catalog) (specs : List StageSpec) (settings : Settings) :
    Option (Except (List BuildError) Pipeline) := do
  let read ← (List.range specs.length).mapM fun i => specs[i]?
  let start : Progress := ⟨c, overallErrors settings read, [], []⟩
  let last ← (List.range specs.length).foldlM (Progress.step settings specs) start
  if last.errors.isEmpty then
    match ← last.catalog.allocate with
    | .error error => (last.catalog.placementError? error).map fun e => .error [e]
    | .ok placed => some (.ok ⟨settings, last.stages, ⟨placed⟩⟩)
  else some (.error (sortErrors last.errors))

variable {settings : Settings} {specs : List StageSpec}

theorem Progress.InStep.step_inStep {p : Progress} {state : BuildState} (h : p.InStep state)
    (hr : state.registry.WellFormed) {i : Nat} {s : StageSpec} (hs : specs[i]? = some s) :
    ∃ p', p.step settings specs i = some p' ∧
      p'.InStep (state.step settings (siteAt specs i s)).value := by
  obtain ⟨x, hx, hout⟩ := h.catalog.resolveStage_inStep hr settings state.failed hs
  unfold step BuildState.step
  rw [h.failed_eq, hx]
  simp only [Option.bind_eq_bind, Option.bind_some, Logged.value_bind, hout.stage_eq,
    hout.causes_eq, h.errors_eq, h.stages_eq]
  cases (TileFusion.resolveStage settings state.registry state.failed
      (siteAt specs i s)).value.stage with
  | none => exact ⟨_, rfl, hout.catalog, rfl, rfl, rfl⟩
  | some stage => exact ⟨_, rfl, hout.catalog, rfl, rfl, rfl⟩

/-- After any number of stages both builds have come equally far. -/
theorem Progress.InStep.run_inStep {p : Progress} {state : BuildState} (h : p.InStep state)
    (hr : state.registry.WellFormed) (settings : Settings) (k : Nat) (hk : k ≤ specs.length) :
    ∃ p', (List.range k).foldlM (Progress.step settings specs) p = some p' ∧
      p'.InStep (state.run settings ((sites specs).take k)).value ∧
      (state.run settings ((sites specs).take k)).value.registry.WellFormed := by
  induction k with
  | zero => exact ⟨p, rfl, h, hr⟩
  | succ k ih =>
    obtain ⟨q, hq, hstep, hwf⟩ := ih (Nat.le_of_succ_le hk)
    have hs : specs[k]? = some specs[k] := List.getElem?_eq_getElem hk
    obtain ⟨q', hq', hnext⟩ := hstep.step_inStep hwf hs
    have htake : (sites specs).take (k + 1) = (sites specs).take k ++ [siteAt specs k specs[k]] := by
      rw [List.take_add_one, getElem?_sites hs]
      rfl
    refine ⟨q', ?_, ?_⟩
    · rw [List.range_succ, List.foldlM_append, hq]
      simpa using hq'
    · rw [htake, BuildState.value_run_append]
      exact ⟨hnext, BuildState.wellFormed_step settings hwf _⟩

theorem InStep.placementError?_eq (h : InStep c r) (hr : r.WellFormed) (error : RegistryError) :
    c.placementError? error = some (placementError r error) := by
  rw [placementError?, h.get_eq hr, placementError, Registry.get]
  cases r.find? error.name <;> rfl

/-- **The whole build.** It does not stop, and ends as the build on the registry does. -/
theorem InStep.build_eq (h : InStep c r) (hr : r.WellFormed) (specs : List StageSpec)
    (settings : Settings) : c.build specs settings = some (Pipeline.build r specs settings).value := by
  have hread : (List.range specs.length).mapM (fun i => specs[i]?) = some specs :=
    mapM_eq_some (List.ext_getElem (by simp) fun i hi _ => by
      rw [List.length_map, List.length_range] at hi
      simp [hi])
  have hlen : (sites specs).length = specs.length := by
    simpa [sites] using congrArg List.length (map_spec_sites 0 none specs)
  have hstart : Progress.InStep ⟨c, overallErrors settings specs, [], []⟩
      ⟨r, overallErrors settings specs, [], []⟩ := ⟨h, rfl, rfl, rfl⟩
  obtain ⟨last, hlast, hend, hwf⟩ := hstart.run_inStep hr settings specs.length le_rfl
  rw [List.take_of_length_le hlen.le] at hend hwf
  unfold build Pipeline.build
  simp only [hread, hlast, Option.bind_eq_bind, Option.bind_some, Logged.value_bind]
  generalize (BuildState.run settings ⟨r, overallErrors settings specs, [], []⟩
    (sites specs)).value = state at hend hwf
  rw [hend.errors_eq]
  split
  next =>
    simp only [hend.catalog.allocate_eq hwf, Option.bind_some, Logged.value_bind]
    cases state.registry.allocate.value with
    | error error => simp [Except.map, hend.catalog.placementError?_eq hwf]
    | ok placed => simp [Except.map, hend.stages_eq]
  next => rfl

end Catalog

end TileFusion
