import TileFusion.Description.Loading
import TileFusion.Proofs.Validity
import Mathlib.Data.List.Forall2

/-!
# Descriptions that are accepted

A description is checked input by input and stage by stage, and only then turned into what a build
takes: a registry to which its inputs and its pinned outputs are declared one after the other, and a
spec for every stage. This file says what both passes come to, without the order in which they look:

> `check_eq_ok_iff`: the check passes exactly when inputs are made of whole tiles, no name is used
> twice, every stage `Suits` its units, and matrix products of inputs go together;
> `load_of_check`: after that, all that a description can be refused for is an input that no word
> addresses or a nonlinear unit that is `Refused`; otherwise it becomes the registry `declared` and
> specs that its stages `Describe`.
-/

namespace TileFusion

/-! ## What the check asks for -/

/-- The names that a description declares: those of its inputs and of the outputs of its stages. -/
def Description.names (d : Description) : List String :=
  d.inputs.map (·.name) ++ d.stages.map (·.output)

/-- A stage has the settings of its units and no others, and none of its nonlinear units idles. -/
structure StageEntry.Suits (e : StageEntry) : Prop where
  op : e.op.isSome = true ↔ e.arithmetic = .eltwise
  pool : e.pool.isSome = true ↔ e.arithmetic = .reduce
  reduceDim : e.reduceDim.isSome = true ↔ e.arithmetic = .reduce
  broadcast : e.broadcast.isSome = true ↔ e.loader = .broadcast
  iterations : ∀ unit ∈ e.nonlinear, 1 ≤ unit.iterations

theorem checkStage_eq_ok_iff (inputs : List InputEntry) (index : Nat) (e : StageEntry) :
    checkStage inputs index e = .ok () ↔
      e.Suits ∧ (e.arithmetic = .matmul → innerMismatch? inputs e = none) := by
  have hiterations : e.nonlinear.any (·.iterations == 0) = false ↔
      ∀ unit ∈ e.nonlinear, 1 ≤ unit.iterations := by
    simp [Nat.one_le_iff_ne_zero]
  have hbroadcast : ((e.loader == .broadcast) != e.broadcast.isSome) = false ↔
      (e.broadcast.isSome = true ↔ e.loader = .broadcast) := by
    rw [bne_eq_false_iff_eq, Bool.eq_iff_iff, beq_iff_eq]
    exact iff_comm
  have hsuits : e.Suits ↔ (e.op.isSome = true ↔ e.arithmetic = .eltwise) ∧
      (e.pool.isSome = true ↔ e.arithmetic = .reduce) ∧
      (e.reduceDim.isSome = true ↔ e.arithmetic = .reduce) ∧
      ((e.loader == .broadcast) != e.broadcast.isSome) = false ∧
      e.nonlinear.any (·.iterations == 0) = false := by
    rw [hbroadcast, hiterations]
    exact ⟨fun h => ⟨h.op, h.pool, h.reduceDim, h.broadcast, h.iterations⟩,
      fun ⟨h1, h2, h3, h4, h5⟩ => ⟨h1, h2, h3, h4, h5⟩⟩
  rw [hsuits]
  unfold checkStage
  generalize ((e.loader == .broadcast) != e.broadcast.isSome) = broadcast
  generalize e.nonlinear.any (·.iterations == 0) = idle
  cases ha : e.arithmetic <;> cases e.op <;> cases e.pool <;> cases e.reduceDim <;>
    cases broadcast <;> cases idle <;> simp
  -- what is left is the one look at the inputs
  cases innerMismatch? inputs e <;> simp

theorem checkInputs_eq_ok_iff (inputs : List InputEntry) :
    ∀ {taken names : List String}, taken.Nodup →
      (checkInputs taken inputs = .ok names ↔ (∀ e ∈ inputs, e.dims.Whole) ∧
        names = (inputs.map (·.name)).reverse ++ taken ∧ names.Nodup) := by
  induction inputs with
  | nil =>
    intro taken names htaken
    simp only [checkInputs, Except.ok.injEq, List.not_mem_nil, false_implies, implies_true,
      List.map_nil, List.reverse_nil, List.nil_append, true_and]
    constructor
    · rintro rfl
      exact ⟨rfl, htaken⟩
    · rintro ⟨rfl, -⟩
      rfl
  | cons e rest ih =>
    intro taken names htaken
    have hnames : ((e :: rest).map (·.name)).reverse ++ taken =
        (rest.map (·.name)).reverse ++ e.name :: taken := by
      simp
    rw [hnames, List.forall_mem_cons, ← isWhole_iff, checkInputs]
    by_cases hwhole : e.dims.isWhole = true
    · by_cases hname : e.name ∈ taken
      · have hcontains : taken.contains e.name = true := by simpa using hname
        simp only [hwhole, hcontains, Bool.not_true, Bool.false_eq_true, if_false, if_true,
          reduceCtorEq, false_iff]
        rintro ⟨-, rfl, hnodup⟩
        exact (List.nodup_cons.mp hnodup.of_append_right).1 hname
      · have hcontains : taken.contains e.name = false := by simpa using hname
        simp only [hwhole, hcontains, Bool.not_true, Bool.false_eq_true, if_false, true_and]
        exact ih (List.nodup_cons.mpr ⟨hname, htaken⟩)
    · simp [hwhole]

theorem checkStages_eq_ok_iff {inputs : List InputEntry} (stages : List StageEntry) :
    ∀ {index : Nat} {taken : List String}, taken.Nodup →
      (checkStages inputs index taken stages = .ok () ↔
        ((stages.map (·.output)).reverse ++ taken).Nodup ∧
          ∀ e ∈ stages, e.Suits ∧ (e.arithmetic = .matmul → innerMismatch? inputs e = none)) := by
  induction stages with
  | nil =>
    intro index taken htaken
    simpa [checkStages] using htaken
  | cons e rest ih =>
    intro index taken htaken
    have hnames : ((e :: rest).map (·.output)).reverse ++ taken =
        (rest.map (·.output)).reverse ++ e.output :: taken := by
      simp
    rw [hnames, List.forall_mem_cons, ← checkStage_eq_ok_iff inputs index, checkStages]
    by_cases hname : e.output ∈ taken
    · have hcontains : taken.contains e.output = true := by simpa using hname
      simp only [hcontains, if_true, reduceCtorEq, false_iff]
      rintro ⟨hnodup, -⟩
      exact (List.nodup_cons.mp hnodup.of_append_right).1 hname
    · have hcontains : taken.contains e.output = false := by simpa using hname
      simp only [hcontains, Bool.false_eq_true, if_false]
      cases hstage : checkStage inputs index e with
      | error fault => simp [bind, Except.bind]
      | ok u =>
        show checkStages inputs (index + 1) (e.output :: taken) rest = .ok () ↔ _
        rw [ih (List.nodup_cons.mpr ⟨hname, htaken⟩)]
        simp

/-- **The check**, without the order in which it looks. -/
theorem Description.check_eq_ok_iff {d : Description} :
    d.check = .ok () ↔ (∀ e ∈ d.inputs, e.dims.Whole) ∧ d.names.Nodup ∧
      ∀ e ∈ d.stages, e.Suits ∧ (e.arithmetic = .matmul → innerMismatch? d.inputs e = none) := by
  have hnames : ((d.stages.map (·.output)).reverse ++ (d.inputs.map (·.name)).reverse).Nodup ↔
      d.names.Nodup := by
    rw [← List.reverse_append, List.nodup_reverse]
    rfl
  have hinputs : ∀ names, checkInputs [] d.inputs = .ok names ↔ (∀ e ∈ d.inputs, e.dims.Whole) ∧
      names = (d.inputs.map (·.name)).reverse ∧ names.Nodup := fun names => by
    rw [checkInputs_eq_ok_iff d.inputs List.nodup_nil, List.append_nil]
  unfold check
  cases hcheck : checkInputs [] d.inputs with
  | error fault =>
    have hnone : ¬((∀ e ∈ d.inputs, e.dims.Whole) ∧ (d.inputs.map (·.name)).reverse.Nodup) := by
      rintro ⟨hwhole, hnodup⟩
      have hok := (hinputs _).mpr ⟨hwhole, rfl, hnodup⟩
      rw [hcheck] at hok
      simp at hok
    simp only [bind, Except.bind, reduceCtorEq, false_iff]
    rintro ⟨hwhole, hnodup, -⟩
    exact hnone ⟨hwhole, (hnames.mpr hnodup).of_append_right⟩
  | ok names =>
    obtain ⟨hwhole, rfl, hnodup⟩ := (hinputs _).mp hcheck
    show checkStages d.inputs 0 _ d.stages = .ok () ↔ _
    rw [checkStages_eq_ok_iff d.stages hnodup, hnames]
    exact ⟨fun ⟨hall, hstages⟩ => ⟨hwhole, hall, hstages⟩,
      fun ⟨_, hall, hstages⟩ => ⟨hall, hstages⟩⟩

/-! ## Nonlinear units -/

/-- A spelling is read as the choice that has it. -/
theorem Named.name_of_ofName? {α : Type} [Named α] {text : String} {x : α}
    (h : Named.ofName? text = some x) : Named.name x = text := by
  simpa using List.find?_some h

theorem UnaryOp.ofName?_eq_some_iff {text : String} {op : UnaryOp} :
    Named.ofName? text = some op ↔ op.name = text := by
  refine ⟨Named.name_of_ofName?, ?_⟩
  rintro rfl
  cases op <;> decide +kernel

theorem BinaryOp.ofName?_eq_some_iff {text : String} {op : BinaryOp} :
    Named.ofName? text = some op ↔ op.name = text := by
  refine ⟨Named.name_of_ofName?, ?_⟩
  rintro rfl
  cases op <;> decide +kernel

/-- The constant of filling operations, given or not. -/
def NonlinearEntry.constant (e : NonlinearEntry) : Scalar binary32 :=
  e.fill.getD Nonlinear.defaultFill

/-- The unit is the one of the entry, with the defaults filled in. -/
def NonlinearEntry.Describes (e : NonlinearEntry) : Nonlinear → Prop
  | .unary op iterations approximate fill =>
    e.kind = .unary ∧ op.name = e.op ∧ iterations = e.iterations ∧ approximate = e.approximate ∧
      fill = e.constant ∧ fill.isFinite = true
  | .binary op iterations approximate first second result =>
    e.kind = .binary ∧ op.name = e.op ∧ iterations = e.iterations ∧ approximate = e.approximate ∧
      e.fill = none ∧ first = e.first.getD 0 ∧ second = e.second.getD 1 ∧ result = e.result.getD 0

/-- Why an entry of stage `index` makes no unit. -/
inductive NonlinearEntry.Refused (index : Nat) (e : NonlinearEntry) : DescriptionFault → Prop where
  | unknownUnary (kind : e.kind = .unary) (name : ∀ op : UnaryOp, op.name ≠ e.op) :
    Refused index e (.unknownUnary e.op)
  | unknownBinary (kind : e.kind = .binary) (name : ∀ op : BinaryOp, op.name ≠ e.op) :
    Refused index e (.unknownBinary e.op)
  | infiniteFill (fill : Scalar binary32) (kind : e.kind = .unary) (given : e.fill = some fill)
    (infinite : fill.isFinite = false) : Refused index e (.infiniteFill index fill)
  | fillOnBinary (kind : e.kind = .binary) (given : e.fill.isSome = true) :
    Refused index e (.fillOnBinary index)

namespace NonlinearEntry

theorem isFinite_defaultFill : Nonlinear.defaultFill.isFinite = true := by
  decide +kernel

theorem checkedFill_eq_ok_iff {index : Nat} {e : NonlinearEntry} {fill : Scalar binary32} :
    e.checkedFill index = .ok fill ↔ fill = e.constant ∧ fill.isFinite = true := by
  unfold checkedFill constant
  cases e.fill with
  | none =>
    simp only [Except.ok.injEq, Option.getD_none]
    constructor
    · rintro rfl
      exact ⟨rfl, isFinite_defaultFill⟩
    · rintro ⟨rfl, -⟩
      rfl
  | some given =>
    by_cases hfinite : given.isFinite = true
    · simp only [hfinite, if_true, Except.ok.injEq, Option.getD_some]
      constructor
      · rintro rfl
        exact ⟨rfl, hfinite⟩
      · rintro ⟨rfl, -⟩
        rfl
    · simp only [hfinite, Bool.false_eq_true, if_false, reduceCtorEq, Option.getD_some, false_iff]
      rintro ⟨rfl, hfill⟩
      exact hfinite hfill

/-- What an entry is turned into: a unit that it describes, or a refusal with its reason. -/
theorem toUnit_cases (index : Nat) (e : NonlinearEntry) :
    (∃ unit, e.toUnit index = .ok unit ∧ e.Describes unit) ∨
      ∃ fault, e.toUnit index = .error fault ∧ e.Refused index fault := by
  unfold toUnit
  cases hkind : e.kind with
  | unary =>
    cases hop : (Named.ofName? e.op : Option UnaryOp) with
    | none =>
      refine .inr ⟨_, rfl, .unknownUnary hkind fun op hname => ?_⟩
      simp [UnaryOp.ofName?_eq_some_iff.mpr hname] at hop
    | some op =>
      cases hfill : e.checkedFill index with
      | ok fill =>
        obtain ⟨hconstant, hfinite⟩ := checkedFill_eq_ok_iff.mp hfill
        exact .inl ⟨_, rfl, hkind, UnaryOp.ofName?_eq_some_iff.mp hop, rfl, rfl, hconstant, hfinite⟩
      | error fault =>
        refine .inr ⟨fault, rfl, ?_⟩
        unfold checkedFill at hfill
        cases hgiven : e.fill with
        | none => simp [hgiven] at hfill
        | some fill =>
          simp only [hgiven] at hfill
          split at hfill
          · simp at hfill
          · next hinfinite =>
            obtain rfl := Except.error.inj hfill
            exact .infiniteFill fill hkind hgiven (Bool.eq_false_iff.mpr hinfinite)
  | binary =>
    cases hop : (Named.ofName? e.op : Option BinaryOp) with
    | none =>
      refine .inr ⟨_, rfl, .unknownBinary hkind fun op hname => ?_⟩
      simp [BinaryOp.ofName?_eq_some_iff.mpr hname] at hop
    | some op =>
      cases hgiven : e.fill with
      | some fill =>
        exact .inr ⟨_, rfl, .fillOnBinary hkind (by simp [hgiven])⟩
      | none =>
        exact .inl ⟨_, rfl, hkind, BinaryOp.ofName?_eq_some_iff.mp hop, rfl, rfl, hgiven, rfl, rfl,
          rfl⟩

end NonlinearEntry

/-- Converting the items of a list ends with all of them converted, or at one that cannot be. -/
theorem mapM_except_cases {α β ε : Type} {f : α → Except ε β} {Good : α → β → Prop}
    {Bad : α → ε → Prop}
    (hf : ∀ x, (∃ y, f x = .ok y ∧ Good x y) ∨ ∃ e, f x = .error e ∧ Bad x e) (xs : List α) :
    (∃ ys, xs.mapM f = .ok ys ∧ List.Forall₂ Good xs ys) ∨
      ∃ e, xs.mapM f = .error e ∧ ∃ x ∈ xs, Bad x e := by
  induction xs with
  | nil => exact .inl ⟨[], rfl, .nil⟩
  | cons x xs ih =>
    rw [List.mapM_cons]
    obtain ⟨y, hy, hgood⟩ | ⟨e, he, hbad⟩ := hf x
    · rw [hy]
      obtain ⟨ys, hys, hall⟩ | ⟨e, he, z, hz, hbad⟩ := ih
      · rw [hys]
        exact .inl ⟨y :: ys, rfl, .cons hgood hall⟩
      · rw [he]
        exact .inr ⟨e, rfl, z, List.mem_cons_of_mem _ hz, hbad⟩
    · rw [he]
      exact .inr ⟨e, rfl, x, List.mem_cons_self .., hbad⟩

/-- Lists that belong together item by item are the same after maps that agree on such items. -/
theorem map_eq_of_forall₂ {α β γ : Type} {R : α → β → Prop} {f : β → γ} {g : α → γ} {xs : List α}
    {ys : List β} (h : List.Forall₂ R xs ys) (hfg : ∀ x ∈ xs, ∀ y, R x y → f y = g x) :
    ys.map f = xs.map g := by
  induction h with
  | nil => rfl
  | cons hxy _ ih =>
    rw [List.map_cons, List.map_cons, hfg _ (List.mem_cons_self ..) _ hxy,
      ih fun x hx => hfg x (List.mem_cons_of_mem _ hx)]

/-- What stands at a place of the second list belongs to what stands there in the first one. -/
theorem exists_getElem?_of_forall₂ {α β : Type} {R : α → β → Prop} {xs : List α} {ys : List β}
    (h : List.Forall₂ R xs ys) {i : Nat} {y : β} (hy : ys[i]? = some y) :
    ∃ x, xs[i]? = some x ∧ R x y := by
  obtain ⟨hlt, rfl⟩ := List.getElem?_eq_some_iff.mp hy
  have hlt' : i < xs.length := h.length_eq ▸ hlt
  exact ⟨xs[i], List.getElem?_eq_getElem hlt', h.get hlt' hlt⟩

theorem forall_mem_of_forall₂ {α β : Type} {R : α → β → Prop} {P : β → Prop} {xs : List α}
    {ys : List β} (h : List.Forall₂ R xs ys) (hP : ∀ x ∈ xs, ∀ y, R x y → P y) :
    ∀ y ∈ ys, P y := by
  intro y hy
  obtain ⟨i, hi⟩ := List.mem_iff_getElem?.mp hy
  obtain ⟨x, hx, hxy⟩ := exists_getElem?_of_forall₂ h hi
  exact hP x (List.mem_of_getElem? hx) y hxy

/-! ## Stages -/

/-- The spec is the one of the entry. -/
structure StageEntry.Describes (e : StageEntry) (s : StageSpec) : Prop where
  loader : s.loader =
    ⟨e.loaderKind, e.sourceA, e.sourceB, e.reuse, e.transposeFaces, e.transposeWithinFace⟩
  arithmetic : e.arithmetic? = some s.arithmetic
  nonlinear : List.Forall₂ NonlinearEntry.Describes e.nonlinear s.nonlinear
  output : s.output = e.output
  outputFormat : s.outputFormat = e.outputFormat
  fidelity : s.fidelity = e.fidelity
  unpackToDest : s.unpackToDest = e.unpackToDest

namespace StageEntry

/-- A checked stage has an arithmetic unit. -/
theorem Suits.exists_arithmetic {e : StageEntry} (h : e.Suits) :
    ∃ unit, e.arithmetic? = some unit := by
  unfold arithmetic?
  cases ha : e.arithmetic with
  | eltwise =>
    obtain ⟨op, hop⟩ := Option.isSome_iff_exists.mp (h.op.mpr ha)
    exact ⟨.eltwise op, by simp [hop]⟩
  | reduce =>
    obtain ⟨pool, hpool⟩ := Option.isSome_iff_exists.mp (h.pool.mpr ha)
    obtain ⟨dim, hdim⟩ := Option.isSome_iff_exists.mp (h.reduceDim.mpr ha)
    exact ⟨.reduce dim pool, by simp [hpool, hdim]⟩
  | matmul => exact ⟨.matmul, rfl⟩
  | datacopy => exact ⟨.datacopy, rfl⟩

/-- A checked stage is turned into a spec, unless one of its nonlinear units is refused. -/
theorem Suits.toSpec_cases {e : StageEntry} (h : e.Suits) (index : Nat) :
    (∃ s, e.toSpec index = .ok s ∧ e.Describes s) ∨
      ∃ fault, e.toSpec index = .error fault ∧ ∃ unit ∈ e.nonlinear, unit.Refused index fault := by
  obtain ⟨arithmetic, harithmetic⟩ := h.exists_arithmetic
  unfold toSpec
  simp only [harithmetic]
  obtain ⟨units, hunits, hall⟩ | ⟨fault, hfault, hrefused⟩ :=
    mapM_except_cases (NonlinearEntry.toUnit_cases index) e.nonlinear
  · rw [hunits]
    exact .inl ⟨_, rfl, rfl, harithmetic, hall, rfl, rfl, rfl, rfl⟩
  · rw [hfault]
    exact .inr ⟨fault, rfl, hrefused⟩

end StageEntry

/-! ## Operands -/

/-- The bytes of an input end, from where it is asked to lie or else from 0, within a word. -/
def InputEntry.Fits (e : InputEntry) : Prop :=
  e.address.getD 0 + e.dims.tileRows * e.dims.tileCols * e.format.tileBytes < wordLimit

/-- The contents of an input. -/
def InputEntry.contents (e : InputEntry) : Contents :=
  ⟨e.dims, e.format, e.dims.tileRows * e.dims.tileCols,
    e.dims.tileRows * e.dims.tileCols * e.format.tileBytes⟩

/-- The operand that an input is declared as. -/
def InputEntry.operand (e : InputEntry) (id : Nat) : Operand :=
  ⟨id, e.name, .input, none, .ofRequest e.address, some e.contents⟩

/-- The registry with one more input. -/
def InputEntry.declared (r : Registry) (e : InputEntry) : Registry :=
  r.push (e.operand r.size)

/-- The operand that the output of stage `index` is declared as, when it is pinned. -/
def StageEntry.operand (e : StageEntry) (index address id : Nat) : Operand :=
  ⟨id, e.output, .output, some index, .pinned address, none⟩

/-- The registry with the output of stage `index`, if it is pinned. -/
def StageEntry.declared (r : Registry) (index : Nat) (e : StageEntry) : Registry :=
  match e.outputAddress with
  | none => r
  | some address => r.push (e.operand index address r.size)

/-- The registry with the pinned outputs of stages, the first of which has the place `index`. -/
def declaredOutputs (r : Registry) (index : Nat) : List StageEntry → Registry
  | [] => r
  | e :: rest => declaredOutputs (e.declared r index) (index + 1) rest

/-- The registry that a description declares. -/
def Description.declared (d : Description) : Registry :=
  declaredOutputs (d.inputs.foldl InputEntry.declared .empty) 0 d.stages

theorem InputEntry.fits_iff {e : InputEntry} :
    e.Fits ↔ Contents.of? e.dims e.format = some e.contents ∧
      Operand.fitsPin (.ofRequest e.address) e.contents = true := by
  have hword : ∀ n, (word? n).isSome = true ↔ n < wordLimit := by
    intro n
    by_cases hn : n < wordLimit <;> simp [word?, hn]
  rw [Contents.of?_eq_some_iff]
  unfold Fits
  cases e.address with
  | none =>
    simp only [Option.getD_none, Nat.zero_add, Location.ofRequest, Operand.fitsPin, and_true]
    exact ⟨fun h => ⟨tiles_lt_of_bytes_lt h, h, rfl⟩, fun h => h.2.1⟩
  | some address =>
    simp only [Option.getD_some, Location.ofRequest, Operand.fitsPin, hword]
    constructor
    · intro h
      have hbytes := Nat.lt_of_le_of_lt (Nat.le_add_left _ address) h
      exact ⟨⟨tiles_lt_of_bytes_lt hbytes, hbytes, rfl⟩, h⟩
    · exact fun h => h.2

theorem declareInput_of_fits {r : Registry} {e : InputEntry} (hname : r.find? e.name = none)
    (h : e.Fits) :
    ∃ o, (r.declareInput e.name e.dims e.format e.address).value = .ok (e.declared r, o) := by
  obtain ⟨hcontents, hpin⟩ := InputEntry.fits_iff.mp h
  have hres : (r.fresh e.name .input none e.address).resolve? e.dims e.format =
      some (e.operand r.size) :=
    Operand.resolve?_eq_some_iff.mpr ⟨_, hcontents, hpin, rfl⟩
  unfold Registry.declareInput
  rw [if_neg (by simp [Registry.contains, hname]), hres]
  exact ⟨_, rfl⟩

theorem declareInput_of_not_fits {r : Registry} {e : InputEntry} (hname : r.find? e.name = none)
    (h : ¬e.Fits) :
    (r.declareInput e.name e.dims e.format e.address).value = .error (.tooLarge e.name) := by
  have hres : (r.fresh e.name .input none e.address).resolve? e.dims e.format = none := by
    rw [Option.eq_none_iff_forall_not_mem]
    intro o ho
    obtain ⟨c, hc, hpin, -⟩ := Operand.resolve?_eq_some_iff.mp ho
    have hcontents : c = e.contents := (Contents.of?_eq_some_iff.mp hc).2.2
    rw [hcontents] at hc hpin
    exact h (InputEntry.fits_iff.mpr ⟨hc, hpin⟩)
  unfold Registry.declareInput
  rw [if_neg (by simp [Registry.contains, hname]), hres]
  rfl

/-- A declared input takes its own name, and no other. -/
theorem InputEntry.find?_declared {r : Registry} {e : InputEntry} (he : r.find? e.name = none)
    {name : String} (hname : r.find? name = none) (hne : name ≠ e.name) :
    (e.declared r).find? name = none := by
  rw [declared, Registry.find?_push_of_none he]
  exact (if_neg hne).trans hname

theorem StageEntry.find?_declared {r : Registry} {e : StageEntry} (index : Nat)
    (he : r.find? e.output = none) {name : String} (hname : r.find? name = none)
    (hne : name ≠ e.output) : (e.declared r index).find? name = none := by
  unfold declared
  split
  · exact hname
  · rw [Registry.find?_push_of_none he]
    exact (if_neg hne).trans hname

/-- An operand is there, or one of the inputs. -/
theorem of_mem_inputs {inputs : List InputEntry} :
    ∀ {r : Registry} {o : Operand}, o ∈ (inputs.foldl InputEntry.declared r).operands →
      o ∈ r.operands ∨ ∃ e ∈ inputs, ∃ id, o = e.operand id := by
  induction inputs with
  | nil => exact fun ho => .inl ho
  | cons e rest ih =>
    intro r o ho
    obtain ho | ⟨x, hx, id, rfl⟩ := ih ho
    · rcases List.mem_append.mp ho with ho | ho
      · exact .inl ho
      · exact .inr ⟨e, List.mem_cons_self .., _, List.mem_singleton.mp ho⟩
    · exact .inr ⟨x, List.mem_cons_of_mem _ hx, id, rfl⟩

/-- An operand is there, or the output of one of the stages. -/
theorem of_mem_outputs {stages : List StageEntry} :
    ∀ {r : Registry} {index : Nat} {o : Operand}, o ∈ (declaredOutputs r index stages).operands →
      o ∈ r.operands ∨ ∃ (i : Nat) (e : StageEntry) (address id : Nat), stages[i]? = some e ∧
        e.outputAddress = some address ∧ o = e.operand (index + i) address id := by
  induction stages with
  | nil => exact fun ho => .inl ho
  | cons e rest ih =>
    intro r index o ho
    obtain ho | ⟨i, x, address, id, hx, haddress, rfl⟩ := ih ho
    · unfold StageEntry.declared at ho
      split at ho
      next => exact .inl ho
      next address haddress =>
        rcases List.mem_append.mp ho with ho | ho
        · exact .inl ho
        · exact .inr ⟨0, e, address, _, rfl, haddress, List.mem_singleton.mp ho⟩
    · exact .inr ⟨i + 1, x, address, id, hx, haddress, by rw [Nat.add_assoc, Nat.add_comm 1]⟩

theorem mem_outputs_of_mem {stages : List StageEntry} :
    ∀ {r : Registry} {index : Nat} {o : Operand}, o ∈ r.operands →
      o ∈ (declaredOutputs r index stages).operands := by
  induction stages with
  | nil => exact fun ho => ho
  | cons e rest ih =>
    intro r index o ho
    refine ih ?_
    unfold StageEntry.declared
    split
    · exact ho
    · exact List.mem_append_left _ ho

/-- A pinned output is declared. -/
theorem exists_mem_outputs {stages : List StageEntry} {i address : Nat} {e : StageEntry}
    (he : stages[i]? = some e) (haddress : e.outputAddress = some address) :
    ∀ (r : Registry) (index : Nat), ∃ id,
      e.operand (index + i) address id ∈ (declaredOutputs r index stages).operands := by
  induction stages generalizing i with
  | nil => simp at he
  | cons x rest ih =>
    intro r index
    cases i with
    | zero =>
      obtain rfl : x = e := by simpa using he
      refine ⟨r.size, mem_outputs_of_mem (r := x.declared r index) ?_⟩
      simp [StageEntry.declared, haddress, Registry.push]
    | succ i =>
      obtain ⟨id, hid⟩ := ih he (x.declared r index) (index + 1)
      rw [Nat.add_assoc, Nat.add_comm 1] at hid
      exact ⟨id, hid⟩

/-- Inputs with new names are declared, up to the first that does not fit. -/
theorem declareInputs_cases (inputs : List InputEntry) :
    ∀ {r : Registry}, (∀ e ∈ inputs, r.find? e.name = none) → (inputs.map (·.name)).Nodup →
      ((∀ e ∈ inputs, e.Fits) ∧
          (declareInputs r inputs).value = .ok (inputs.foldl InputEntry.declared r)) ∨
        ∃ e ∈ inputs, ¬e.Fits ∧
          (declareInputs r inputs).value = .error (.registry (.tooLarge e.name)) := by
  induction inputs with
  | nil => exact fun _ _ => .inl ⟨by simp, rfl⟩
  | cons e rest ih =>
    intro r hnew hnodup
    rw [List.map_cons, List.nodup_cons] at hnodup
    have he := hnew e (List.mem_cons_self ..)
    by_cases hfits : e.Fits
    · obtain ⟨o, hdeclare⟩ := declareInput_of_fits he hfits
      have hstep : (declareInputs r (e :: rest)).value =
          (declareInputs (e.declared r) rest).value := by
        rw [declareInputs, Logged.value_bind, hdeclare]
      have hrest : ∀ x ∈ rest, (e.declared r).find? x.name = none := fun x hx =>
        e.find?_declared he (hnew x (List.mem_cons_of_mem _ hx)) fun hname =>
          hnodup.1 (hname ▸ List.mem_map_of_mem hx)
      rw [hstep]
      obtain ⟨hall, hok⟩ | ⟨x, hx, hbad, herror⟩ := ih hrest hnodup.2
      · exact .inl ⟨List.forall_mem_cons.mpr ⟨hfits, hall⟩, hok⟩
      · exact .inr ⟨x, List.mem_cons_of_mem _ hx, hbad, herror⟩
    · refine .inr ⟨e, List.mem_cons_self .., hfits, ?_⟩
      rw [declareInputs, Logged.value_bind, declareInput_of_not_fits he hfits]
      rfl

/-- The output of a stage with a new name is declared if it is pinned. -/
theorem declarePinned_of_new {r : Registry} {e : StageEntry} (index : Nat)
    (he : r.find? e.output = none) : declarePinned r index e = .ok (e.declared r index) := by
  unfold declarePinned StageEntry.declared
  cases e.outputAddress with
  | none => rfl
  | some address =>
    have hcontains : r.contains e.output = false := Registry.contains_eq_false_iff.mpr he
    simp only [Registry.declareOutput, hcontains, Bool.false_eq_true, if_false]
    rfl

/-- Checked stages with new outputs are turned into specs, up to the first with a nonlinear unit
that is refused. -/
theorem loadStages_cases (stages : List StageEntry) :
    ∀ {r : Registry} (index : Nat), (∀ e ∈ stages, e.Suits ∧ r.find? e.output = none) →
      (stages.map (·.output)).Nodup →
      (∃ specs, loadStages r index stages = .ok (declaredOutputs r index stages, specs) ∧
          List.Forall₂ StageEntry.Describes stages specs) ∨
        ∃ fault, loadStages r index stages = .error fault ∧
          ∃ (i : Nat) (e : StageEntry), stages[i]? = some e ∧
            ∃ unit ∈ e.nonlinear, unit.Refused (index + i) fault := by
  induction stages with
  | nil => exact fun _ _ _ => .inl ⟨[], rfl, .nil⟩
  | cons e rest ih =>
    intro r index hall hnodup
    rw [List.map_cons, List.nodup_cons] at hnodup
    obtain ⟨hsuits, he⟩ := hall e (List.mem_cons_self ..)
    have hrest : ∀ x ∈ rest, x.Suits ∧ (e.declared r index).find? x.output = none := fun x hx =>
      ⟨(hall x (List.mem_cons_of_mem _ hx)).1,
        e.find?_declared index he (hall x (List.mem_cons_of_mem _ hx)).2 fun hname =>
          hnodup.1 (hname ▸ List.mem_map_of_mem hx)⟩
    rw [loadStages, declarePinned_of_new index he]
    obtain ⟨s, hs, hdescribes⟩ | ⟨fault, hfault, hrefused⟩ := hsuits.toSpec_cases index
    · obtain ⟨specs, hok, hspecs⟩ | ⟨fault, herror, i, x, hx, hrefused⟩ :=
        ih (index + 1) hrest hnodup.2
      · refine .inl ⟨s :: specs, ?_, .cons hdescribes hspecs⟩
        simp only [hs, bind, Except.bind, hok, declaredOutputs]
        rfl
      · refine .inr ⟨fault, by simp only [hs, bind, Except.bind, herror], i + 1, x, hx, ?_⟩
        rwa [Nat.add_right_comm, Nat.add_assoc] at hrefused
    · exact .inr ⟨fault, by simp only [bind, Except.bind, hfault], 0, e, rfl, hrefused⟩

/-! ## Loading -/

/-- Why a description that has passed its check is refused after all. -/
inductive Description.Refused (d : Description) : DescriptionFault → Prop where
  | input (e : InputEntry) (mem : e ∈ d.inputs) (unfit : ¬e.Fits) :
    Refused d (.registry (.tooLarge e.name))
  | unit (i : Nat) (e : StageEntry) (at_place : d.stages[i]? = some e) (u : NonlinearEntry)
    (mem : u ∈ e.nonlinear) (fault : DescriptionFault) (refused : u.Refused i fault) :
    Refused d fault

/-- The settings of a build. -/
def PipelineEntry.settings (e : PipelineEntry) (platform : Platform) : Settings :=
  ⟨platform, e.accumulate, e.batchSize, e.destSync⟩

/-- No output has the name of an input. -/
theorem Description.output_ne_input {d : Description} (hnames : d.names.Nodup) {e : StageEntry}
    (he : e ∈ d.stages) {x : InputEntry} (hx : x ∈ d.inputs) : e.output ≠ x.name := fun hname =>
  (List.nodup_append.mp hnames).2.2 _ (List.mem_map_of_mem hx) _ (List.mem_map_of_mem he) hname.symm

theorem Description.find?_inputs_of_output {d : Description} (hnames : d.names.Nodup)
    {e : StageEntry} (he : e ∈ d.stages) :
    (d.inputs.foldl InputEntry.declared .empty).find? e.output = none := by
  refine Registry.find?_eq_none_iff.mpr fun o ho hname => ?_
  obtain ho | ⟨x, hx, id, rfl⟩ := of_mem_inputs ho
  · simp [Registry.empty] at ho
  · exact output_ne_input hnames he hx hname.symm

/-- **What becomes of a checked description.** -/
theorem Description.load_of_check {d : Description} (h : d.check = .ok ()) (platform : Platform) :
    (∃ specs, (d.load platform).value = .ok ⟨d.declared, specs, d.pipeline.settings platform⟩ ∧
        (∀ e ∈ d.inputs, e.Fits) ∧ List.Forall₂ StageEntry.Describes d.stages specs) ∨
      ∃ fault, (d.load platform).value = .error fault ∧ d.Refused fault := by
  obtain ⟨-, hnames, hstages⟩ := check_eq_ok_iff.mp h
  obtain ⟨hinputs, houtputs, -⟩ := List.nodup_append.mp hnames
  have hload : (d.load platform).value = (declareInputs .empty d.inputs).value.bind fun registry =>
      (loadStages registry 0 d.stages).map fun loaded =>
        ⟨loaded.1, loaded.2, d.pipeline.settings platform⟩ := by
    unfold load
    simp only [h, Logged.value_bind]
    cases (declareInputs .empty d.inputs).value with
    | error fault => rfl
    | ok registry =>
      simp only [Except.bind]
      cases loadStages registry 0 d.stages <;> rfl
  obtain ⟨hfits, hok⟩ | ⟨e, he, hbad, herror⟩ :=
    declareInputs_cases d.inputs (r := .empty) (fun _ _ => rfl) hinputs
  · have hnew : ∀ e ∈ d.stages,
        e.Suits ∧ (d.inputs.foldl InputEntry.declared .empty).find? e.output = none := fun e he =>
      ⟨(hstages e he).1, d.find?_inputs_of_output hnames he⟩
    obtain ⟨specs, hspecs, hall⟩ | ⟨fault, herror, i, e, he, unit, hunit, hrefused⟩ :=
      loadStages_cases d.stages 0 hnew houtputs
    · refine .inl ⟨specs, ?_, hfits, hall⟩
      simp only [hload, hok, Except.bind, hspecs]
      rfl
    · refine .inr ⟨fault, by simp only [hload, hok, Except.bind, herror]; rfl, ?_⟩
      rw [Nat.zero_add] at hrefused
      exact .unit i e he unit hunit fault hrefused
  · exact .inr ⟨_, by simp only [hload, herror, Except.bind], .input e he hbad⟩

/-- What a description is turned into, if it is. -/
theorem Description.of_load_eq_ok {d : Description} {platform : Platform} {input : BuildInput}
    (h : (d.load platform).value = .ok input) :
    d.check = .ok () ∧ (∀ e ∈ d.inputs, e.Fits) ∧ input.registry = d.declared ∧
      input.settings = d.pipeline.settings platform ∧
      List.Forall₂ StageEntry.Describes d.stages input.specs := by
  cases hcheck : d.check with
  | error fault =>
    simp [load, hcheck] at h
  | ok u =>
    obtain ⟨specs, hok, hfits, hall⟩ | ⟨fault, herror, -⟩ := load_of_check hcheck platform
    · rw [h] at hok
      obtain rfl := Except.ok.inj hok
      exact ⟨rfl, hfits, rfl, rfl, hall⟩
    · rw [h] at herror
      simp at herror

/-- The operands that a description declares are its inputs and its pinned outputs. -/
theorem Description.of_mem_declared {d : Description} {o : Operand} (h : o ∈ d.declared.operands) :
    (∃ e ∈ d.inputs, ∃ id, o = e.operand id) ∨
      ∃ (i : Nat) (e : StageEntry) (address id : Nat), d.stages[i]? = some e ∧
        e.outputAddress = some address ∧ o = e.operand i address id := by
  obtain ho | ⟨i, e, address, id, he, haddress, rfl⟩ := of_mem_outputs h
  · obtain ho | hinput := of_mem_inputs ho
    · simp [Registry.empty] at ho
    · exact .inl hinput
  · exact .inr ⟨i, e, address, id, he, haddress, by rw [Nat.zero_add]⟩

/-- A checked description names an output only once. -/
theorem Description.eq_of_output {d : Description} (hnames : d.names.Nodup) {i j : Nat}
    {e x : StageEntry} (he : d.stages[i]? = some e) (hx : d.stages[j]? = some x)
    (hname : e.output = x.output) : i = j := by
  have houtputs : (d.stages.map (·.output)).Nodup := hnames.of_append_right
  obtain ⟨hi, rfl⟩ := List.getElem?_eq_some_iff.mp he
  obtain ⟨hj, rfl⟩ := List.getElem?_eq_some_iff.mp hx
  have hi' : i < (d.stages.map (·.output)).length := by rwa [List.length_map]
  have hj' : j < (d.stages.map (·.output)).length := by rwa [List.length_map]
  have houtput : (d.stages.map (·.output))[i] = (d.stages.map (·.output))[j] := by
    rw [List.getElem_map, List.getElem_map]
    exact hname
  exact houtputs.getElem_inj_iff.mp houtput

theorem declared_foldl {inputs : List InputEntry} :
    ∀ {r : Registry}, r.Declared → (∀ e ∈ inputs, e.Fits ∧ r.find? e.name = none) →
      (inputs.map (·.name)).Nodup → (inputs.foldl InputEntry.declared r).Declared := by
  induction inputs with
  | nil => exact fun h _ _ => h
  | cons e rest ih =>
    intro r h hall hnodup
    rw [List.map_cons, List.nodup_cons] at hnodup
    obtain ⟨hfits, he⟩ := hall e (List.mem_cons_self ..)
    obtain ⟨o, ho⟩ := declareInput_of_fits he hfits
    refine ih (.input _ _ _ _ h ho) (fun x hx => ?_) hnodup.2
    obtain ⟨hx', hnew⟩ := hall x (List.mem_cons_of_mem _ hx)
    exact ⟨hx', e.find?_declared he hnew fun hname => hnodup.1 (hname ▸ List.mem_map_of_mem hx)⟩

/-- Pinned outputs with new names are declared. -/
theorem declared_declaredOutputs {stages : List StageEntry} :
    ∀ {r : Registry} (index : Nat), r.Declared → (∀ e ∈ stages, r.find? e.output = none) →
      (stages.map (·.output)).Nodup → (declaredOutputs r index stages).Declared := by
  induction stages with
  | nil => exact fun _ h _ _ => h
  | cons e rest ih =>
    intro r index h hnew hnodup
    rw [List.map_cons, List.nodup_cons] at hnodup
    have he := hnew e (List.mem_cons_self ..)
    refine ih (index + 1) ?_ (fun x hx => ?_) hnodup.2
    · unfold StageEntry.declared
      cases e.outputAddress with
      | none => exact h
      | some address =>
        refine .output (o := e.operand index address r.size) .output e.output index (some address) h
          (.inr rfl) ?_
        have hcontains : r.contains e.output = false := Registry.contains_eq_false_iff.mpr he
        simp only [Registry.declareOutput, hcontains, Bool.false_eq_true, if_false]
        rfl
    · exact e.find?_declared index he (hnew x (List.mem_cons_of_mem _ hx)) fun hname =>
        hnodup.1 (hname ▸ List.mem_map_of_mem hx)

/-- The registry of a description whose inputs fit is one that a caller can make. -/
theorem Description.declared_declared {d : Description} (hnames : d.names.Nodup)
    (hfits : ∀ e ∈ d.inputs, e.Fits) : d.declared.Declared := by
  obtain ⟨hinputs, houtputs, -⟩ := List.nodup_append.mp hnames
  refine declared_declaredOutputs 0 ?_ (fun e he => d.find?_inputs_of_output hnames he) houtputs
  exact declared_foldl .empty (fun e he => ⟨hfits e he, rfl⟩) hinputs

/-- A description of one stage, which copies an operand and applies one nonlinear unit to it. -/
def copying (source : String) (unit : NonlinearEntry) : Description where
  pipeline := .default
  inputs := [⟨"a", ⟨32, 32⟩, .float16b, none⟩]
  stages := [{
    sourceA := source
    sourceB := none
    output := "copy"
    outputFormat := .float16b
    outputAddress := none
    loader := .direct
    broadcast := none
    reuse := .none
    transposeFaces := false
    transposeWithinFace := false
    arithmetic := .datacopy
    op := none
    reduceDim := none
    pool := none
    nonlinear := [unit]
    fidelity := .hifi4
    unpackToDest := false }]

/-- A unit on one tile that says nothing but its operation. -/
def plainUnary (op : String) : NonlinearEntry :=
  ⟨.unary, op, 1, false, none, none, none, none⟩

end TileFusion
