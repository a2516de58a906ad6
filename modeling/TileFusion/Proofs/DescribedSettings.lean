import TileFusion.Proofs.AcceptedDescriptions
import TileFusion.Proofs.ThreadAgreement

/-!
# What a description says and what a build takes

Loading turns a description into a registry, specs and settings. This file goes the other way:
`BuildInput.described` reads a description off what was loaded, and says thereby which settings a
description can have that nothing is left of.

> `load_eq_iff`: two descriptions that load for one platform are loaded as the same exactly when
> they say the same in every field that loading heeds, with its defaults filled in.

Heeded is every field but the platform and, at units on one tile, the places of tiles in the
accumulator. Those belong to units on two tiles. The check of every other setting that is at home
elsewhere (an operation, a pool, a dimension, a spread, a constant) refuses the description; these
three are passed over, and two descriptions that differ in them alone become the same build
(`places_on_unary_passed_over`).
-/

namespace TileFusion

/-! ## Defaults -/

/-- The entry with the defaults of its kind filled in: the constant of a unit on one tile, and the
places of a unit on two. -/
def NonlinearEntry.filled (e : NonlinearEntry) : NonlinearEntry :=
  match e.kind with
  | .unary => { e with fill := some e.constant }
  | .binary =>
    { e with
      first := some (e.first.getD 0)
      second := some (e.second.getD 1)
      result := some (e.result.getD 0) }

/-- What loading heeds of an entry: a unit on one tile has no places. -/
def NonlinearEntry.heeded (e : NonlinearEntry) : NonlinearEntry :=
  match e.kind with
  | .unary => { e.filled with first := none, second := none, result := none }
  | .binary => e.filled

/-- Nothing is said about places at a unit on one tile. -/
def NonlinearEntry.Placeless (e : NonlinearEntry) : Prop :=
  e.kind = .unary → e.first = none ∧ e.second = none ∧ e.result = none

theorem NonlinearEntry.heeded_eq_filled_iff {e : NonlinearEntry} :
    e.heeded = e.filled ↔ e.Placeless := by
  unfold heeded Placeless
  cases hkind : e.kind with
  | unary =>
    obtain ⟨kind, op, iterations, approximate, fill, first, second, result⟩ := e
    obtain rfl : kind = .unary := hkind
    simp only [filled, mk.injEq, true_and, true_implies]
    exact ⟨fun ⟨h₁, h₂, h₃⟩ => ⟨h₁.symm, h₂.symm, h₃.symm⟩,
      fun ⟨h₁, h₂, h₃⟩ => ⟨h₁.symm, h₂.symm, h₃.symm⟩⟩
  | binary => simp

/-- The stage with another reading of its nonlinear units. -/
def StageEntry.withUnits (f : NonlinearEntry → NonlinearEntry) (e : StageEntry) : StageEntry :=
  { e with nonlinear := e.nonlinear.map f }

/-- The description with another reading of its nonlinear units. The platform is the one that it is
loaded for. -/
def Description.withUnits (f : NonlinearEntry → NonlinearEntry) (d : Description) :
    Description where
  pipeline := { d.pipeline with platform := none }
  inputs := d.inputs
  stages := d.stages.map (·.withUnits f)

/-- The description with all defaults filled in. -/
def Description.filled (d : Description) : Description :=
  d.withUnits NonlinearEntry.filled

/-- What loading heeds of a description. -/
def Description.heeded (d : Description) : Description :=
  d.withUnits NonlinearEntry.heeded

theorem Description.heeded_eq_filled_iff {d : Description} :
    d.heeded = d.filled ↔ ∀ e ∈ d.stages, ∀ unit ∈ e.nonlinear, unit.Placeless := by
  have hstage : ∀ e : StageEntry, e.withUnits NonlinearEntry.heeded =
      e.withUnits NonlinearEntry.filled ↔ ∀ unit ∈ e.nonlinear, unit.Placeless := by
    intro e
    simp only [StageEntry.withUnits, StageEntry.mk.injEq, true_and, and_true, List.map_inj_left,
      NonlinearEntry.heeded_eq_filled_iff]
  simp only [heeded, filled, withUnits, mk.injEq, true_and, List.map_inj_left, hstage]

/-! ## Reading entries off units -/

/-- The entry that describes a unit. -/
def Nonlinear.entry : Nonlinear → NonlinearEntry
  | .unary op iterations approximate fill =>
    ⟨.unary, op.name, iterations, approximate, some fill, none, none, none⟩
  | .binary op iterations approximate first second result =>
    ⟨.binary, op.name, iterations, approximate, none, some first, some second, some result⟩

theorem UnaryOp.name_injective {x y : UnaryOp} (h : x.name = y.name) : x = y :=
  Option.some.inj ((UnaryOp.ofName?_eq_some_iff.mpr h).symm.trans
    (UnaryOp.ofName?_eq_some_iff.mpr rfl))

theorem BinaryOp.name_injective {x y : BinaryOp} (h : x.name = y.name) : x = y :=
  Option.some.inj ((BinaryOp.ofName?_eq_some_iff.mpr h).symm.trans
    (BinaryOp.ofName?_eq_some_iff.mpr rfl))

theorem Nonlinear.entry_injective : Function.Injective Nonlinear.entry := by
  intro x y h
  cases x <;> cases y <;> simp only [entry, NonlinearEntry.mk.injEq, Option.some.injEq,
    reduceCtorEq, false_and, true_and, and_true] at h
  · obtain ⟨hop, rfl, rfl, rfl⟩ := h
    rw [UnaryOp.name_injective hop]
  · obtain ⟨hop, rfl, rfl, rfl, rfl, rfl⟩ := h
    rw [BinaryOp.name_injective hop]

/-- A described unit is all that is heeded of its entry. -/
theorem NonlinearEntry.Describes.entry_eq {e : NonlinearEntry} {unit : Nonlinear}
    (h : e.Describes unit) : unit.entry = e.heeded := by
  obtain ⟨kind, op, iterations, approximate, fill, first, second, result⟩ := e
  cases unit with
  | unary unitOp n ap value =>
    obtain ⟨rfl, rfl, rfl, rfl, rfl, -⟩ := h
    rfl
  | binary unitOp n ap x y z =>
    obtain ⟨rfl, rfl, rfl, rfl, rfl, rfl, rfl, rfl⟩ := h
    rfl

theorem NonlinearEntry.Describes.fill_eq_none {e : NonlinearEntry} {unit : Nonlinear}
    (h : e.Describes unit) (hkind : e.kind = .binary) : e.fill = none := by
  cases unit with
  | unary op n ap value => simp [h.1] at hkind
  | binary op n ap x y z =>
    obtain ⟨-, -, -, -, hfill, -⟩ := h
    exact hfill

/-! ## Reading entries off stages -/

/-- The kind of a loader, and its spread. -/
def LoaderKind.entry : LoaderKind → LoaderName × Option Broadcast
  | .direct => (.direct, none)
  | .broadcast spread => (.broadcast, some spread)
  | .reduce => (.reduce, none)
  | .matmul => (.matmul, none)
  | .tilize => (.tilize, none)

/-- The kind of an arithmetic unit. -/
def Arithmetic.entry : Arithmetic → ArithmeticName
  | .eltwise _ => .eltwise
  | .reduce _ _ => .reduce
  | .matmul => .matmul
  | .datacopy => .datacopy

/-- The elementwise operation of an arithmetic unit. -/
def Arithmetic.op? : Arithmetic → Option EltwiseOp
  | .eltwise op => some op
  | _ => none

/-- The entry that describes a stage whose output is asked to lie at `address`. -/
def StageSpec.entry (address : Option Nat) (s : StageSpec) : StageEntry where
  sourceA := s.loader.sourceA
  sourceB := s.loader.sourceB
  output := s.output
  outputFormat := s.outputFormat
  outputAddress := address
  loader := s.loader.kind.entry.1
  broadcast := s.loader.kind.entry.2
  reuse := s.loader.reuse
  transposeFaces := s.loader.transposeFaces
  transposeWithinFace := s.loader.transposeWithinFace
  arithmetic := s.arithmetic.entry
  op := s.arithmetic.op?
  reduceDim := s.arithmetic.dim?
  pool := s.arithmetic.pool?
  nonlinear := s.nonlinear.map Nonlinear.entry
  fidelity := s.fidelity
  unpackToDest := s.unpackToDest

theorem LoaderKind.entry_injective : Function.Injective LoaderKind.entry := by
  intro x y h
  cases x <;> cases y <;> simp_all [entry]

/-- The settings of an arithmetic unit determine it. -/
theorem Arithmetic.eq_of_entry {x y : Arithmetic} (hkind : x.entry = y.entry)
    (hop : x.op? = y.op?) (hdim : x.dim? = y.dim?) (hpool : x.pool? = y.pool?) : x = y := by
  cases x <;> cases y <;> simp_all [entry, op?, dim?, pool?]

/-- A stage is determined by the entry that describes it, wherever its output lies. -/
theorem StageSpec.eq_of_entry {x y : StageSpec} {a b : Option Nat} (h : x.entry a = y.entry b) :
    x = y := by
  simp only [entry, StageEntry.mk.injEq] at h
  obtain ⟨ha, hb, hout, hformat, -, hkind, hspread, hreuse, hfaces, hwithin, harith, hop, hdim,
    hpool, hunits, hfidelity, hdest⟩ := h
  have hloader : x.loader = y.loader := by
    obtain ⟨⟨kind, _, _, _, _, _⟩, _, _, _, _, _, _⟩ := x
    obtain ⟨⟨kind', _, _, _, _, _⟩, _, _, _, _, _, _⟩ := y
    obtain rfl : kind = kind' := LoaderKind.entry_injective (Prod.ext hkind hspread)
    simp_all
  have harithmetic : x.arithmetic = y.arithmetic :=
    Arithmetic.eq_of_entry harith hop hdim hpool
  have hnonlinear : x.nonlinear = y.nonlinear :=
    List.map_injective_iff.mpr Nonlinear.entry_injective hunits
  obtain ⟨_, _, _, _, _, _, _⟩ := x
  obtain ⟨_, _, _, _, _, _, _⟩ := y
  simp_all

namespace StageEntry

theorem Suits.loader_entry {e : StageEntry} (h : e.Suits) :
    e.loaderKind.entry = (e.loader, e.broadcast) := by
  have hbroadcast := h.broadcast
  unfold loaderKind
  cases hl : e.loader <;> cases hb : e.broadcast <;> simp_all [LoaderKind.entry]

theorem Suits.arithmetic_entry {e : StageEntry} (h : e.Suits) {unit : Arithmetic}
    (hunit : e.arithmetic? = some unit) :
    unit.entry = e.arithmetic ∧ unit.op? = e.op ∧ unit.dim? = e.reduceDim ∧
      unit.pool? = e.pool := by
  have hop := h.op
  have hpool := h.pool
  have hdim := h.reduceDim
  unfold arithmetic? at hunit
  cases ha : e.arithmetic <;> cases ho : e.op <;> cases hp : e.pool <;> cases hd : e.reduceDim <;>
    simp_all <;> subst hunit <;> simp [Arithmetic.entry, Arithmetic.op?, Arithmetic.dim?,
      Arithmetic.pool?]

/-- A described stage is all that is heeded of its entry, but for the address of its output. -/
theorem Describes.entry_eq {e : StageEntry} {s : StageSpec} (h : e.Describes s) (hsuits : e.Suits) :
    s.entry e.outputAddress = e.withUnits NonlinearEntry.heeded := by
  obtain ⟨harith, hop, hdim, hpool⟩ := hsuits.arithmetic_entry h.arithmetic
  have hunits : s.nonlinear.map Nonlinear.entry = e.nonlinear.map NonlinearEntry.heeded :=
    map_eq_of_forall₂ h.nonlinear fun _ _ _ hunit => hunit.entry_eq
  simp only [StageSpec.entry, withUnits, h.loader, hsuits.loader_entry, h.output, h.outputFormat,
    h.fidelity, h.unpackToDest, harith, hop, hdim, hpool, hunits]

end StageEntry

/-! ## Reading entries off a registry -/

/-- The input entry that describes an operand. -/
def InputEntry.ofOperand (o : Operand) : InputEntry :=
  ⟨o.name, o.dims, o.format, o.location.address?⟩

@[simp] theorem InputEntry.ofOperand_operand (e : InputEntry) (id : Nat) :
    InputEntry.ofOperand (e.operand id) = e := by
  obtain ⟨name, dims, format, address⟩ := e
  cases address <;> rfl

theorem withRole_foldl_declared (inputs : List InputEntry) (r : Registry) :
    ((inputs.foldl InputEntry.declared r).withRole .input).map InputEntry.ofOperand =
      (r.withRole .input).map InputEntry.ofOperand ++ inputs := by
  induction inputs generalizing r with
  | nil => simp
  | cons e rest ih =>
    have hself : [e.operand r.size].filter (fun o => o.role == .input) = [e.operand r.size] := rfl
    rw [List.foldl_cons, ih, InputEntry.declared, Registry.withRole, Registry.push,
      List.filter_append, hself]
    simp [Registry.withRole]

/-- Outputs are no inputs. -/
theorem withRole_declaredOutputs (stages : List StageEntry) (r : Registry) (index : Nat) :
    (declaredOutputs r index stages).withRole .input = r.withRole .input := by
  induction stages generalizing r index with
  | nil => rfl
  | cons e rest ih =>
    rw [declaredOutputs, ih, StageEntry.declared]
    cases e.outputAddress with
    | none => rfl
    | some address => simp [Registry.withRole, Registry.push, StageEntry.operand]

/-- The inputs are read off the registry that a description declares. -/
theorem Description.inputs_declared (d : Description) :
    (d.declared.withRole .input).map InputEntry.ofOperand = d.inputs := by
  rw [declared, withRole_declaredOutputs, withRole_foldl_declared]
  rfl

/-- So is where outputs are asked to lie. -/
theorem Description.address_declared {d : Description} (hnames : d.names.Nodup)
    (hfits : ∀ e ∈ d.inputs, e.Fits) {i : Nat} {e : StageEntry} (he : d.stages[i]? = some e) :
    (d.declared.find? e.output).bind (·.location.address?) = e.outputAddress := by
  cases haddress : e.outputAddress with
  | some address =>
    obtain ⟨id, hid⟩ := exists_mem_outputs he haddress
      (d.inputs.foldl InputEntry.declared .empty) 0
    have hfound : d.declared.find? e.output = some (e.operand (0 + i) address id) :=
      (d.declared_declared hnames hfits).wellFormed.find?_name hid
    rw [hfound]
    rfl
  | none =>
    have hnone : d.declared.find? e.output = none := by
      refine Registry.find?_eq_none_iff.mpr fun o ho hname => ?_
      obtain ⟨x, hx, id, rfl⟩ | ⟨j, x, address, id, hx, hpinned, rfl⟩ := d.of_mem_declared ho
      · exact d.output_ne_input hnames (List.mem_of_getElem? he) hx hname.symm
      · -- the only stage with this output is the one itself, which is not pinned
        obtain rfl := d.eq_of_output hnames hx he hname
        obtain rfl := Option.some.inj (hx.symm.trans he)
        rw [haddress] at hpinned
        simp at hpinned
    rw [hnone]
    rfl

/-! ## Reading a description off what was loaded -/

/-- The description that is read off what was loaded. -/
def BuildInput.described (input : BuildInput) : Description where
  pipeline := ⟨none, input.settings.accumulate, input.settings.batchSize, input.settings.destSync⟩
  inputs := (input.registry.withRole .input).map InputEntry.ofOperand
  stages := input.specs.map fun s =>
    s.entry ((input.registry.find? s.output).bind (·.location.address?))

/-- **What was loaded says what was described**, as far as it is heeded. -/
theorem described_of_load {d : Description} {platform : Platform} {input : BuildInput}
    (h : (d.load platform).value = .ok input) : input.described = d.heeded := by
  obtain ⟨hcheck, hfits, hregistry, hsettings, hspecs⟩ := d.of_load_eq_ok h
  obtain ⟨-, hnames, hstages⟩ := Description.check_eq_ok_iff.mp hcheck
  have haddress : ∀ e ∈ d.stages,
      (d.declared.find? e.output).bind (·.location.address?) = e.outputAddress := by
    intro e he
    obtain ⟨i, hi⟩ := List.mem_iff_getElem?.mp he
    exact d.address_declared hnames hfits hi
  have hentries : input.described.stages = d.heeded.stages := by
    refine map_eq_of_forall₂ hspecs fun e he s hdescribes => ?_
    rw [hregistry, hdescribes.output, haddress e he]
    exact hdescribes.entry_eq (hstages e he).1
  have hinputs : input.described.inputs = d.heeded.inputs := by
    show (input.registry.withRole .input).map InputEntry.ofOperand = d.inputs
    rw [hregistry, d.inputs_declared]
  have hpipeline : input.described.pipeline = d.heeded.pipeline := by
    simp only [BuildInput.described, hsettings]
    rfl
  exact Description.mk.injEq .. ▸ ⟨hpipeline, hinputs, hentries⟩

/-! ## Descriptions that load alike -/

theorem declaredOutputs_withUnits (f : NonlinearEntry → NonlinearEntry) (stages : List StageEntry)
    (r : Registry) (index : Nat) :
    declaredOutputs r index (stages.map (·.withUnits f)) = declaredOutputs r index stages := by
  induction stages generalizing r index with
  | nil => rfl
  | cons e rest ih =>
    have hdeclared : (e.withUnits f).declared r index = e.declared r index := rfl
    rw [List.map_cons, declaredOutputs, declaredOutputs, hdeclared, ih]

/-- Nonlinear units do not matter for what is declared. -/
theorem Description.declared_withUnits (f : NonlinearEntry → NonlinearEntry) (d : Description) :
    (d.withUnits f).declared = d.declared :=
  declaredOutputs_withUnits f d.stages _ 0

/-- **What is heeded determines what is loaded.** -/
theorem eq_of_heeded {d₁ d₂ : Description} {platform : Platform} {i₁ i₂ : BuildInput}
    (h₁ : (d₁.load platform).value = .ok i₁) (h₂ : (d₂.load platform).value = .ok i₂)
    (h : d₁.heeded = d₂.heeded) : i₁ = i₂ := by
  obtain ⟨-, -, hregistry₁, hsettings₁, -⟩ := d₁.of_load_eq_ok h₁
  obtain ⟨-, -, hregistry₂, hsettings₂, -⟩ := d₂.of_load_eq_ok h₂
  have hregistry : i₁.registry = i₂.registry := by
    rw [hregistry₁, hregistry₂, ← d₁.declared_withUnits, ← d₂.declared_withUnits]
    exact congrArg Description.declared h
  have hsettings : i₁.settings = i₂.settings := by
    have hpipeline := congrArg Description.pipeline h
    simp only [Description.heeded, Description.withUnits, PipelineEntry.mk.injEq] at hpipeline
    obtain ⟨-, haccumulate, hbatch, hsync⟩ := hpipeline
    rw [hsettings₁, hsettings₂, PipelineEntry.settings, PipelineEntry.settings, haccumulate, hbatch,
      hsync]
  have hspecs : i₁.specs = i₂.specs := by
    have hstages : i₁.described.stages = i₂.described.stages := by
      rw [described_of_load h₁, described_of_load h₂, h]
    simp only [BuildInput.described, hregistry] at hstages
    exact List.map_injective_iff.mpr (fun x y hxy => StageSpec.eq_of_entry hxy) hstages
  obtain ⟨_, _, _⟩ := i₁
  obtain ⟨_, _, _⟩ := i₂
  simp_all

/-- **Two descriptions that load for a platform** are loaded as the same exactly when they say the
same in all that is heeded. Their stages have the settings of their units and no others, and units
on two tiles no constant; as long as units on one tile name no places either, nothing that a
description says is passed over. -/
theorem load_eq_iff {d₁ d₂ : Description} {platform : Platform} {i₁ i₂ : BuildInput}
    (h₁ : (d₁.load platform).value = .ok i₁) (h₂ : (d₂.load platform).value = .ok i₂) :
    (i₁ = i₂ ↔ d₁.heeded = d₂.heeded) ∧
      (∀ e ∈ d₁.stages, e.Suits ∧ ∀ unit ∈ e.nonlinear, unit.kind = .binary → unit.fill = none) ∧
      (d₁.heeded = d₁.filled ↔ ∀ e ∈ d₁.stages, ∀ unit ∈ e.nonlinear, unit.Placeless) := by
  refine ⟨⟨?_, eq_of_heeded h₁ h₂⟩, ?_, Description.heeded_eq_filled_iff⟩
  · rintro rfl
    exact (described_of_load h₁).symm.trans (described_of_load h₂)
  · obtain ⟨hcheck, -, -, -, hspecs⟩ := d₁.of_load_eq_ok h₁
    obtain ⟨-, -, hstages⟩ := Description.check_eq_ok_iff.mp hcheck
    have hfill : ∀ e ∈ d₁.stages, ∀ unit ∈ e.nonlinear, unit.kind = .binary → unit.fill = none :=
      forall_mem_of_forall₂ hspecs.flip fun s _ e hdescribes =>
        forall_mem_of_forall₂ hdescribes.nonlinear.flip fun _ _ _ hunit =>
          NonlinearEntry.Describes.fill_eq_none hunit
    exact fun e he => ⟨(hstages e he).1, hfill e he⟩

/-- A description that names a place at its unit on one tile is loaded as the one that does not. -/
theorem load_eq_iff_placed :
    ∃ input, ((copying "a" (plainUnary "abs")).load .wormhole).value = .ok input ∧
      ((copying "a" { plainUnary "abs" with first := some 3 }).load .wormhole).value = .ok input ∧
      (copying "a" (plainUnary "abs")).heeded =
        (copying "a" { plainUnary "abs" with first := some 3 }).heeded ∧
      (copying "a" (plainUnary "abs")).heeded = (copying "a" (plainUnary "abs")).filled := by
  obtain ⟨input, hplain, hplaced⟩ :
      ∃ input, ((copying "a" (plainUnary "abs")).load .wormhole).value = .ok input ∧
        ((copying "a" { plainUnary "abs" with first := some 3 }).load .wormhole).value =
          .ok input :=
    ⟨_, rfl, rfl⟩
  have hboth := load_eq_iff hplain hplaced
  refine ⟨input, hplain, hplaced, hboth.1.mp rfl, hboth.2.2.mpr ?_⟩
  simp [copying, plainUnary, NonlinearEntry.Placeless]

/-- **Places at a unit on one tile are passed over**: it is not so that descriptions which are
loaded as the same say the same, with all defaults filled in. -/
theorem places_on_unary_passed_over :
    ¬∀ (d₁ d₂ : Description) (platform : Platform) (input : BuildInput),
      (d₁.load platform).value = .ok input → (d₂.load platform).value = .ok input →
        d₁.filled = d₂.filled := by
  intro hall
  have hfilled := hall (copying "a" (plainUnary "abs"))
    (copying "a" { plainUnary "abs" with first := some 3 }) .wormhole _ rfl rfl
  exact absurd hfilled (by decide +kernel)

end TileFusion
