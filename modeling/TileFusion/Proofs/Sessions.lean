import Mathlib.Algebra.Order.Floor.Div
import Mathlib.GroupTheory.GroupAction.Ring
import Mathlib.Logic.Function.Basic
import TileFusion.Proofs.Registries

/-!
# Sessions of declarations

A caller declares buffers one after the other. Some calls succeed and some fail, in any mixture.
This file says which registry that leads to and what each call answers.

> `session_keeps_order`: after every session the registry holds the accepted requests in their
> order, with places for ids, no name twice and inputs counted in words; a call fails exactly when
> its name is taken or its buffer cannot be addressed, and then it changes nothing.

A registry is a value here, so a call that fails has nothing to take back. A registry that is
changed in place has: it keeps the operands in one structure and the place of each name in another,
an input is entered in both before its contents are counted, and is taken out of both again when
they do not fit. `Catalog` is that registry, with every access to a place that may not exist as
`none`. It answers as the value does and stays in step with it (`serve_inStep`).
-/

namespace TileFusion

/-! ## What the caller asks for -/

/-- A declaration of a buffer. -/
inductive Request where
  | input (name : String) (dims : Dims) (format : DataFormat) (address : Option Nat)
  | intermediate (name : String) (producer : Nat) (address : Option Nat)
  | output (name : String) (producer : Nat) (address : Option Nat)

namespace Request

/-- The name that a request is about. -/
def name : Request → String
  | input name _ _ _ | intermediate name _ _ | output name _ _ => name

/-- The buffer asked for can be addressed: its tiles can be counted in a word, and so can its bytes,
also from the address it is pinned to. -/
def Fits : Request → Prop
  | input _ dims format address =>
    dims.tileRows * dims.tileCols < wordLimit ∧
      dims.tileRows * dims.tileCols * format.tileBytes < wordLimit ∧
      ∀ a ∈ address, a + dims.tileRows * dims.tileCols * format.tileBytes < wordLimit
  | intermediate .. | output .. => True

instance (q : Request) : Decidable q.Fits :=
  match q with
  | input .. => inferInstanceAs (Decidable (_ ∧ _ ∧ _))
  | intermediate .. | output .. => inferInstanceAs (Decidable True)

/-- The operand that stands at place `id` once the request is accepted. -/
def operand (id : Nat) : Request → Operand
  | input name dims format address =>
    ⟨id, name, .input, none, .ofRequest address, Contents.of? dims format⟩
  | intermediate name producer address =>
    ⟨id, name, .intermediate, some producer, .ofRequest address, none⟩
  | output name producer address => ⟨id, name, .output, some producer, .ofRequest address, none⟩

@[simp] theorem id_operand (q : Request) (id : Nat) : (q.operand id).id = id := by
  cases q <;> rfl

@[simp] theorem name_operand (q : Request) (id : Nat) : (q.operand id).name = q.name := by
  cases q <;> rfl

/-- An input is settled at once exactly when its buffer can be addressed. -/
theorem resolve?_eq_ite (r : Registry) (name : String) (dims : Dims) (format : DataFormat)
    (address : Option Nat) :
    (r.fresh name .input none address).resolve? dims format =
      if (input name dims format address).Fits then
        some ((input name dims format address).operand r.size)
      else none := by
  by_cases h : (input name dims format address).Fits
  · rw [if_pos h, Operand.resolve?_eq_some_iff]
    have hc := Contents.of?_eq_some_iff.mpr ⟨h.1, h.2.1, rfl⟩
    refine ⟨_, hc, ?_, ?_⟩
    · cases address with
      | none => rfl
      | some a => simp [Registry.fresh, Location.ofRequest, Operand.fitsPin, word?, h.2.2 a rfl]
    · rw [← hc]
      rfl
  · rw [if_neg h, Option.eq_none_iff_forall_ne_some]
    intro o ho
    obtain ⟨c, hc, hp, -⟩ := Operand.resolve?_eq_some_iff.mp ho
    obtain ⟨ht, hs, rfl⟩ := Contents.of?_eq_some_iff.mp hc
    refine h ⟨ht, hs, fun a ha => ?_⟩
    obtain rfl := Option.mem_def.mp ha
    by_contra hlarge
    simp [Registry.fresh, Location.ofRequest, Operand.fitsPin, word?, hlarge] at hp

end Request

/-- The requests that are accepted when they come in this order: those whose name is new and whose
buffer can be addressed. -/
def accepted (requests : List Request) : List Request :=
  requests.foldl (fun front q => if q.name ∈ front.map Request.name ∨ ¬q.Fits then front
    else front ++ [q]) []

namespace Registry

/-- What a registry answers to a declaration. -/
def answer (r : Registry) : Request → Except RegistryError (Registry × Operand)
  | .input name dims format address => (r.declareInput name dims format address).value
  | .intermediate name producer address => r.declareOutput .intermediate name producer address
  | .output name producer address => r.declareOutput .output name producer address

/-- The registry afterwards; one that refuses stays as it is. -/
def serve (r : Registry) (q : Request) : Registry :=
  match r.answer q with
  | .ok (r', _) => r'
  | .error _ => r

/-- The registry of a caller who declares one buffer after the other. -/
def ofRequests (requests : List Request) : Registry :=
  requests.foldl serve empty

theorem Declared.serve {r : Registry} (h : r.Declared) (q : Request) : (r.serve q).Declared := by
  unfold Registry.serve
  split
  next r' o hanswer =>
    cases q with
    | input name dims format address => exact .input name dims format address h hanswer
    | intermediate name producer address =>
      exact .output .intermediate name producer address h (.inl rfl) hanswer
    | output name producer address => exact .output .output name producer address h (.inr rfl) hanswer
  next => exact h

/-- What holds after all requests holds of every declared registry, and the other way round. -/
theorem declared_iff_exists_requests (r : Registry) :
    r.Declared ↔ ∃ requests, ofRequests requests = r := by
  constructor
  · intro h
    have hone : ∀ {r r' : Registry} {o : Operand} (q : Request), r.answer q = .ok (r', o) →
        (∃ requests, ofRequests requests = r) → ∃ requests, ofRequests requests = r' := by
      rintro r r' o q hanswer ⟨requests, rfl⟩
      refine ⟨requests ++ [q], ?_⟩
      rw [ofRequests, List.foldl_append, List.foldl_cons, List.foldl_nil]
      show (ofRequests requests).serve q = r'
      rw [Registry.serve, hanswer]
    induction h with
    | empty => exact ⟨[], rfl⟩
    | input name dims format address _ hd ih => exact hone (.input name dims format address) hd ih
    | output role name producer address _ hrole hd ih =>
      obtain rfl | rfl := hrole
      · exact hone (.intermediate name producer address) hd ih
      · exact hone (.output name producer address) hd ih
  · rintro ⟨requests, rfl⟩
    have hrun : ∀ r : Registry, r.Declared → (requests.foldl Registry.serve r).Declared := by
      induction requests with
      | nil => exact fun _ h => h
      | cons q requests ih => exact fun r h => ih (r.serve q) (h.serve q)
    exact hrun empty .empty

/-- What a registry answers, case by case. -/
theorem answer_eq_ite (r : Registry) (q : Request) :
    r.answer q =
      if r.contains q.name then .error (.duplicate q.name)
      else if q.Fits then .ok (r.push (q.operand r.size), q.operand r.size)
      else .error (.tooLarge q.name) := by
  cases q with
  | input name dims format address =>
    show (r.declareInput name dims format address).value =
      if r.contains name then .error (.duplicate name) else _
    unfold declareInput
    rw [Request.resolve?_eq_ite]
    by_cases hfit : (Request.input name dims format address).Fits
    · simp only [if_pos hfit]
      split <;> rfl
    · simp only [if_neg hfit]
      split <;> rfl
  | intermediate name producer address => rfl
  | output name producer address => rfl

theorem serve_eq_ite (r : Registry) (q : Request) :
    r.serve q = if r.contains q.name = true ∨ ¬q.Fits then r else r.push (q.operand r.size) := by
  unfold serve
  rw [answer_eq_ite]
  by_cases hc : r.contains q.name = true
  · simp [hc]
  · by_cases hf : q.Fits <;> simp [hc, hf]

theorem ofRequests_concat (requests : List Request) (q : Request) :
    ofRequests (requests ++ [q]) = (ofRequests requests).serve q := by
  unfold ofRequests
  rw [List.foldl_append, List.foldl_cons, List.foldl_nil]

/-- After a session the registry holds what was accepted, in that order. -/
theorem operands_ofRequests (requests : List Request) :
    (ofRequests requests).operands = (accepted requests).mapIdx fun k q => q.operand k := by
  induction requests using List.reverseRecOn with
  | nil => rfl
  | append_singleton front q ih =>
    have hsize : (ofRequests front).size = (accepted front).length := by
      rw [size, ih, List.length_mapIdx]
    have hnames : (ofRequests front).operands.map (·.name) = (accepted front).map Request.name := by
      rw [ih]
      refine List.ext_getElem? fun k => ?_
      simp [Function.comp_def]
    have htaken : (ofRequests front).contains q.name = true ↔
        q.name ∈ (accepted front).map Request.name := by
      rw [← hnames, ← not_iff_not, Bool.not_eq_true, contains_eq_false_iff, find?_eq_none_iff]
      simp
    rw [ofRequests_concat, serve_eq_ite]
    unfold accepted
    rw [List.foldl_append, List.foldl_cons, List.foldl_nil]
    show _ = List.mapIdx _ (if q.name ∈ (accepted front).map Request.name ∨ ¬q.Fits then
      accepted front else accepted front ++ [q])
    by_cases h : q.name ∈ (accepted front).map Request.name ∨ ¬q.Fits
    · rw [if_pos h, if_pos (by rwa [htaken]), ih]
    · rw [if_neg h, if_neg (by rwa [htaken]), List.mapIdx_concat, push, ih, hsize]

end Registry

/-! ## The registry that is changed in place -/

/-- The operands, and apart from them the place of each name. -/
structure Catalog where
  /-- The operands, in declaration order. -/
  operands : List Operand
  /-- The place of a name. -/
  index : String → Option Nat

namespace Catalog

/-- The catalog that holds nothing. -/
def empty : Catalog := ⟨[], fun _ => none⟩

/-- The place of a name, or the failure to find one. -/
def idOf (c : Catalog) (name : String) : Except RegistryError Nat :=
  match c.index name with
  | some id => .ok id
  | none => .error (.unknown name)

/-- Enters an operand without contents in both structures. -/
def insert (c : Catalog) (name : String) (role : Role) (producer address : Option Nat) :
    Except RegistryError (Catalog × Nat) :=
  if (c.index name).isSome then .error (.duplicate name)
  else
    let id := c.operands.length
    .ok (⟨c.operands ++ [⟨id, name, role, producer, .ofRequest address, none⟩],
      Function.update c.index name (some id)⟩, id)

/-- Takes the last operand and a name out again. -/
def withdraw (c : Catalog) (name : String) : Catalog :=
  ⟨c.operands.dropLast, Function.update c.index name none⟩

/-- Settles the contents of the operand at a place; `none` if there is no such place. -/
def resolve (c : Catalog) (id : Nat) (dims : Dims) (format : DataFormat) :
    Option (Except RegistryError Catalog) :=
  (c.operands[id]?).map fun o =>
    match o.resolve? dims format with
    | none => .error (.tooLarge o.name)
    | some o' => .ok { c with operands := c.operands.set id o' }

/-- What an entered operand is answered with; `none` if it is not there. -/
def reply (c : Catalog) (id : Nat) : Option (Catalog × Except RegistryError Operand) :=
  (c.operands[id]?).map fun o => (c, .ok o)

/-- Enters an operand and settles it, or takes it out again. -/
def declareInput (c : Catalog) (name : String) (dims : Dims) (format : DataFormat)
    (address : Option Nat) : Option (Catalog × Except RegistryError Operand) :=
  match c.insert name .input none address with
  | .error e => some (c, .error e)
  | .ok (c', id) =>
    (c'.resolve id dims format).bind fun
      | .error e => some (c'.withdraw name, .error e)
      | .ok settled => settled.reply id

/-- Enters an operand that a stage will settle. -/
def declareOutput (c : Catalog) (role : Role) (name : String) (producer : Nat)
    (address : Option Nat) : Option (Catalog × Except RegistryError Operand) :=
  match c.insert name role (some producer) address with
  | .error e => some (c, .error e)
  | .ok (c', id) => c'.reply id

/-- The catalog afterwards, and the answer; `none` if a place is read that does not exist. -/
def serve (c : Catalog) : Request → Option (Catalog × Except RegistryError Operand)
  | .input name dims format address => c.declareInput name dims format address
  | .intermediate name producer address => c.declareOutput .intermediate name producer address
  | .output name producer address => c.declareOutput .output name producer address

/-- The catalog of a caller who declares one buffer after the other. -/
def ofRequests (requests : List Request) : Option Catalog :=
  requests.foldlM (fun c q => (c.serve q).map Prod.fst) empty

/-- The catalog and the registry hold the same operands, and the catalog finds each under the name
that it has there. -/
structure InStep (c : Catalog) (r : Registry) : Prop where
  /-- The operands are the same. -/
  operands_eq : c.operands = r.operands
  /-- A name leads to the id of its operand. -/
  index_eq : ∀ name, c.index name = (r.find? name).map (·.id)

variable {c c' : Catalog} {r : Registry}

theorem inStep_empty : InStep empty Registry.empty :=
  ⟨rfl, fun _ => rfl⟩

/-- Nothing in a catalog is free once the registry is known. -/
theorem InStep.unique (h : InStep c r) (h' : InStep c' r) : c = c' := by
  cases c
  cases c'
  congr 1
  · exact h.operands_eq.trans h'.operands_eq.symm
  · funext name
    exact (h.index_eq name).trans (h'.index_eq name).symm

theorem InStep.isSome_index (h : InStep c r) (name : String) :
    (c.index name).isSome = r.contains name := by
  rw [h.index_eq, Option.isSome_map]
  rfl

/-- The catalog with one more operand, entered in both structures, is in step with the registry
with that operand. -/
theorem InStep.push (h : InStep c r) {o : Operand} (hid : o.id = r.size)
    (hfree : r.find? o.name = none) :
    InStep ⟨c.operands ++ [o], Function.update c.index o.name (some r.size)⟩ (r.push o) := by
  refine ⟨by rw [h.operands_eq]; rfl, fun name => ?_⟩
  rw [Registry.find?_push_of_none hfree]
  by_cases hn : name = o.name
  · subst hn
    simp [hid]
  · simp [hn, h.index_eq]

/-- An operand that was entered and taken out again has left nothing behind. -/
theorem InStep.withdraw (h : InStep c r) {o : Operand} (hfree : r.find? o.name = none) (id : Nat) :
    withdraw ⟨c.operands ++ [o], Function.update c.index o.name (some id)⟩ o.name = c := by
  refine InStep.unique (r := r) ⟨?_, fun name => ?_⟩ h
  · simp [Catalog.withdraw, h.operands_eq]
  · show Function.update (Function.update c.index o.name (some id)) o.name none name = _
    by_cases hn : name = o.name
    · subst hn
      simp [hfree]
    · simp [hn, h.index_eq]

theorem InStep.insert_of_taken (h : InStep c r) (name : String) (ht : r.contains name = true)
    (role : Role) (producer address : Option Nat) :
    c.insert name role producer address = .error (.duplicate name) := by
  unfold insert
  rw [h.isSome_index, if_pos ht]

theorem InStep.insert_of_free (h : InStep c r) (name : String) (hf : r.contains name = false)
    (role : Role) (producer address : Option Nat) :
    c.insert name role producer address =
      .ok (⟨c.operands ++ [r.fresh name role producer address],
        Function.update c.index name (some r.size)⟩, r.size) := by
  have hlen : c.operands.length = r.size := by rw [h.operands_eq, Registry.size]
  unfold insert Registry.fresh
  rw [h.isSome_index, hf, hlen]
  rfl

theorem serve_of_taken (h : InStep c r) {q : Request} (ht : r.contains q.name = true) :
    c.serve q = some (c, .error (.duplicate q.name)) := by
  cases q with
  | input name dims format address =>
    show c.declareInput name dims format address = some (c, .error (.duplicate name))
    rw [declareInput, h.insert_of_taken name ht]
  | intermediate name producer address =>
    show c.declareOutput .intermediate name producer address = some (c, .error (.duplicate name))
    rw [declareOutput, h.insert_of_taken name ht]
  | output name producer address =>
    show c.declareOutput .output name producer address = some (c, .error (.duplicate name))
    rw [declareOutput, h.insert_of_taken name ht]

theorem InStep.declareOutput_of_free (h : InStep c r) {name : String}
    (hf : r.contains name = false) (role : Role) (producer : Nat) (address : Option Nat) :
    c.declareOutput role name producer address =
      some (⟨c.operands ++ [r.fresh name role (some producer) address],
        Function.update c.index name (some r.size)⟩,
        .ok (r.fresh name role (some producer) address)) := by
  have hlen : r.size = c.operands.length := by rw [h.operands_eq, Registry.size]
  rw [declareOutput, h.insert_of_free name hf]
  simp only [reply, hlen, List.getElem?_concat_length, Option.map_some]

/-- The operand is entered, and an input is settled where it was entered. -/
theorem serve_of_fits (h : InStep c r) {q : Request} (hf : r.contains q.name = false)
    (hfit : q.Fits) :
    c.serve q = some (⟨c.operands ++ [q.operand r.size],
      Function.update c.index q.name (some r.size)⟩, .ok (q.operand r.size)) := by
  have hlen : r.size = c.operands.length := by rw [h.operands_eq, Registry.size]
  cases q with
  | input name dims format address =>
    show c.declareInput name dims format address = _
    rw [declareInput, h.insert_of_free name hf]
    simp only [resolve, hlen, List.getElem?_concat_length, Option.map_some, Option.bind_some]
    rw [Request.resolve?_eq_ite, if_pos hfit]
    simp [reply, hlen, Request.name]
  | intermediate name producer address =>
    exact h.declareOutput_of_free hf .intermediate producer address
  | output name producer address => exact h.declareOutput_of_free hf .output producer address

/-- Only an input can fail to fit. It is entered, found too large and taken out again. -/
theorem serve_of_not_fits (h : InStep c r) {q : Request} (hf : r.contains q.name = false)
    (hfit : ¬q.Fits) : c.serve q = some (c, .error (.tooLarge q.name)) := by
  have hlen : r.size = c.operands.length := by rw [h.operands_eq, Registry.size]
  cases q with
  | input name dims format address =>
    show c.declareInput name dims format address = some (c, .error (.tooLarge name))
    rw [declareInput, h.insert_of_free name hf]
    simp only [resolve, hlen, List.getElem?_concat_length, Option.map_some, Option.bind_some]
    rw [Request.resolve?_eq_ite, if_neg hfit]
    have hback := h.withdraw (o := r.fresh name .input none address)
      (Registry.contains_eq_false_iff.mp hf) c.operands.length
    exact congrArg (fun x => some (x, Except.error (RegistryError.tooLarge name))) hback
  | intermediate => exact absurd trivial hfit
  | output => exact absurd trivial hfit

/-- **One call.** The catalog answers as the registry does, reads no place that does not exist and
stays in step. -/
theorem serve_inStep (h : InStep c r) (q : Request) :
    ∃ c', c.serve q = some (c', (r.answer q).map Prod.snd) ∧ InStep c' (r.serve q) := by
  rw [r.answer_eq_ite, r.serve_eq_ite]
  cases ht : r.contains q.name with
  | true => exact ⟨c, serve_of_taken h ht, by simpa using h⟩
  | false =>
    by_cases hfit : q.Fits
    · have hpush := h.push (o := q.operand r.size) (Request.id_operand q _)
        (by rw [Request.name_operand]; exact Registry.contains_eq_false_iff.mp ht)
      rw [Request.name_operand] at hpush
      rw [serve_of_fits h ht hfit]
      simp only [hfit, Bool.false_eq_true, not_true_eq_false, or_self, if_false, if_true]
      exact ⟨_, rfl, hpush⟩
    · rw [serve_of_not_fits h ht hfit]
      simp only [hfit, Bool.false_eq_true, not_false_eq_true, or_true, if_false, if_true]
      exact ⟨c, rfl, h⟩

/-- A whole session. -/
theorem ofRequests_inStep (requests : List Request) :
    ∃ c, ofRequests requests = some c ∧ InStep c (Registry.ofRequests requests) := by
  induction requests using List.reverseRecOn with
  | nil => exact ⟨empty, rfl, inStep_empty⟩
  | append_singleton front q ih =>
    obtain ⟨c, hc, hstep⟩ := ih
    obtain ⟨c', hserve, hstep'⟩ := serve_inStep hstep q
    refine ⟨c', ?_, by rwa [Registry.ofRequests_concat]⟩
    unfold ofRequests at hc ⊢
    rw [List.foldlM_append, hc]
    simp [hserve]

/-- How a catalog deals with a request. -/
structure Replies (c : Catalog) (q : Request) (c' : Catalog)
    (reply : Except RegistryError Operand) : Prop where
  /-- A name is refused exactly when it is taken. -/
  duplicate_iff : reply = .error (.duplicate q.name) ↔ q.name ∈ c.operands.map (·.name)
  /-- A buffer is refused exactly when its name is new and it cannot be addressed. -/
  tooLarge_iff : reply = .error (.tooLarge q.name) ↔ q.name ∉ c.operands.map (·.name) ∧ ¬q.Fits
  /-- Everything else is accepted, and goes to the end. -/
  ok_iff : reply = .ok (q.operand c.operands.length) ↔ q.name ∉ c.operands.map (·.name) ∧ q.Fits
  /-- A refusal changes nothing. -/
  unchanged : ∀ e, reply = .error e → c' = c
  /-- The name of a buffer that was too large can be declared after all. -/
  again : reply = .error (.tooLarge q.name) → ∀ q' : Request, q'.name = q.name → q'.Fits →
    ∃ c'', c'.serve q' = some (c'', .ok (q'.operand c'.operands.length))

theorem InStep.contains_iff (h : InStep c r) (name : String) :
    r.contains name = true ↔ name ∈ c.operands.map (·.name) := by
  rw [h.operands_eq, ← not_iff_not, Bool.not_eq_true, Registry.contains_eq_false_iff,
    Registry.find?_eq_none_iff]
  simp

/-- Every request is dealt with so, whatever came before. -/
theorem exists_replies (h : InStep c r) (q : Request) :
    ∃ c' reply, c.serve q = some (c', reply) ∧ reply = (r.answer q).map Prod.snd ∧
      InStep c' (r.serve q) ∧ c.Replies q c' reply := by
  obtain ⟨c', hserve, hstep⟩ := serve_inStep h q
  have hlen : c.operands.length = r.size := by rw [h.operands_eq, Registry.size]
  refine ⟨c', _, hserve, rfl, hstep, ?_⟩
  have hsame : r.serve q = r → c' = c := fun he => InStep.unique (he ▸ hstep) h
  rw [r.serve_eq_ite] at hsame
  rw [r.answer_eq_ite]
  cases ht : r.contains q.name with
  | true =>
    have hmem := (h.contains_iff q.name).mp ht
    refine ⟨?_, ?_, ?_, fun _ _ => hsame (by simp [ht]), ?_⟩ <;> simp [Except.map, hmem]
  | false =>
    have hmem : q.name ∉ c.operands.map (·.name) := by
      rw [← h.contains_iff, ht]
      simp
    by_cases hfit : q.Fits
    · refine ⟨?_, ?_, ?_, ?_, ?_⟩ <;> simp [Except.map, hmem, hfit, hlen]
    · have hc : c' = c := hsame (by simp [hfit])
      refine ⟨?_, ?_, ?_, fun _ _ => hc, fun _ q' hname hfit' => ?_⟩
      · simp [Except.map, hmem, hfit]
      · simp [Except.map, hmem, hfit]
      · simp [Except.map, hfit]
      · rw [hc, hlen]
        exact ⟨_, serve_of_fits h (by rwa [hname]) hfit'⟩

/-- A name leads to the operand that has it. -/
theorem InStep.idOf_iff (h : InStep c r) (hr : r.WellFormed) (name : String) (id : Nat) :
    c.idOf name = .ok id ↔ ∃ o, c.operands[id]? = some o ∧ o.id = id ∧ o.name = name := by
  unfold idOf
  rw [h.index_eq, h.operands_eq]
  constructor
  · intro hid
    cases hf : r.find? name with
    | none => simp [hf] at hid
    | some o =>
      obtain rfl : o.id = id := by simpa [hf] using hid
      exact ⟨o, hr.operand?_id (Registry.mem_of_find? hf), rfl, Registry.name_of_find? hf⟩
  · intro ho
    obtain ⟨o, ho, rfl, rfl⟩ := ho
    rw [hr.find?_name (List.mem_of_getElem? ho)]
    rfl

end Catalog

/-! ## Between two calls -/

theorem Dims.tileRows_eq_ceilDiv (d : Dims) : d.tileRows = d.rows ⌈/⌉ 32 := by
  rw [Nat.ceilDiv_eq_add_pred_div]
  rfl

theorem Dims.tileCols_eq_ceilDiv (d : Dims) : d.tileCols = d.cols ⌈/⌉ 32 := by
  rw [Nat.ceilDiv_eq_add_pred_div]
  rfl

/-- What holds of a registry between two declarations. -/
structure Registry.Orderly (r : Registry) : Prop where
  /-- The id of an operand is its place. -/
  ids : ∀ (k : Nat) (o : Operand), r.operands[k]? = some o → o.id = k
  /-- No name is used twice. -/
  names : (r.operands.map (·.name)).Nodup
  /-- Inputs are settled, and nothing else is. -/
  settled_iff : ∀ o ∈ r.operands, o.isResolved = true ↔ o.role = .input
  /-- The tiles of an input cover its shape, and its bytes can be addressed. -/
  counted : ∀ o ∈ r.operands, o.role = .input →
    o.tiles = (o.dims.rows ⌈/⌉ 32) * (o.dims.cols ⌈/⌉ 32) ∧
      o.size = o.tiles * o.format.tileBytes ∧ o.size < 2 ^ 32 ∧
      ∀ a, o.location = .pinned a → a + o.size < 2 ^ 32

theorem Registry.Declared.orderly {r : Registry} (h : r.Declared) : r.Orderly := by
  have hwf := h.wellFormed
  refine ⟨hwf.ids, hwf.names, fun o ho => ?_, fun o ho hrole => ?_⟩
  · rcases h.untouched o ho with ⟨hrole, hres, -⟩ | ⟨hrole, hres, -⟩
    · simp [hrole, hres]
    · simp [hrole, hres]
  · have hsound := hwf.sound o ho
    obtain ⟨c, hc⟩ := Operand.isResolved_iff.mp (hsound.settled_of_input hrole)
    obtain ⟨-, hs, hceq⟩ := Contents.of?_eq_some_iff.mp (hsound.contents_eq c hc)
    have htiles : o.tiles = c.dims.tileRows * c.dims.tileCols := by
      rw [Operand.tiles, hc, hceq]
      rfl
    have hsize : o.size = c.dims.tileRows * c.dims.tileCols * c.format.tileBytes := by
      rw [Operand.size, hc, hceq]
      rfl
    have hpin : ∀ a, o.location = .pinned a → a + o.size < wordLimit := by
      intro a ha
      have hfit := hsound.fits c hc
      rw [ha, Operand.fitsPin, Option.isSome_iff_exists] at hfit
      obtain ⟨n, hn⟩ := hfit
      rw [Operand.size, hc]
      exact (word?_eq_some_iff.mp hn).1
    rw [Dims.tileRows_eq_ceilDiv, Dims.tileCols_eq_ceilDiv] at htiles hsize hs
    rw [Operand.dims_of_contents hc, Operand.format_of_contents hc]
    exact ⟨htiles, by rw [hsize, htiles], by rw [hsize]; exact hs, hpin⟩

/-- **The registry of a session.** After any requests, accepted and refused in any mixture, the
operands are the accepted requests in their order; places are ids, names are distinct and found, the
inputs are the settled operands and are counted in words. The next request fails exactly when its
name is taken or its buffer cannot be addressed, and then everything is as it was. -/
theorem session_keeps_order (requests : List Request) :
    (Registry.ofRequests requests).Orderly ∧
    (Registry.ofRequests requests).operands =
      (accepted requests).mapIdx (fun k q => q.operand k) ∧
    ∃ c, Catalog.ofRequests requests = some c ∧ c.InStep (Registry.ofRequests requests) ∧
      (∀ name id, c.idOf name = .ok id ↔
        ∃ o, c.operands[id]? = some o ∧ o.id = id ∧ o.name = name) ∧
      ∀ q, ∃ c' reply, c.serve q = some (c', reply) ∧
        reply = ((Registry.ofRequests requests).answer q).map Prod.snd ∧
        c'.InStep ((Registry.ofRequests requests).serve q) ∧ c.Replies q c' reply := by
  have hr : (Registry.ofRequests requests).Declared :=
    (Registry.declared_iff_exists_requests _).mpr ⟨requests, rfl⟩
  obtain ⟨c, hc, hstep⟩ := Catalog.ofRequests_inStep requests
  refine ⟨hr.orderly, Registry.operands_ofRequests requests, c, hc, hstep, ?_, ?_⟩
  · exact hstep.idOf_iff hr.wellFormed
  · exact Catalog.exists_replies hstep

/-- A buffer that is too large leaves its name to the next one, which then keeps it. -/
example : (Registry.ofRequests [.input "a" ⟨4294967295, 4294967295⟩ .float32 none,
    .input "a" ⟨33, 64⟩ .float16b (some 7), .output "a" 0 none]).operands =
      [⟨0, "a", .input, none, .pinned 7, some ⟨⟨33, 64⟩, .float16b, 4, 8192⟩⟩] := by
  decide

end TileFusion
