import TileFusion.Proofs.Derivation
import TileFusion.Proofs.FirstFit
import Mathlib.Data.List.Induction

/-!
# Valid pipelines

What a list of stages has to satisfy, said without building anything: no registry is changed from
stage to stage, no stage fails, and no check is skipped because another one has failed. The only
recursion is over the stages in front, and it computes shapes and formats alone:

> `outlines r specs`: the shape and format behind every name that can be read after `specs`.

`Valid` collects the conditions. Each one is a statement about all stages of the list, and only the
last one, on placement, looks at more than one buffer at a time.
-/

namespace TileFusion

/-! ## Shapes and formats along the stages -/

/-- Shape and format of a buffer. -/
structure Outline where
  /-- Rows and columns. -/
  dims : Dims
  /-- Format of each datum. -/
  format : DataFormat
  deriving DecidableEq, Repr

/-- Bytes of all tiles. -/
def Outline.bytes (g : Outline) : Nat :=
  g.dims.tileRows * g.dims.tileCols * g.format.tileBytes

/-- The outline of a declared input. -/
def Registry.inputs (r : Registry) (name : String) : Option Outline :=
  (r.find? name).bind fun o => if o.role = .input then some ⟨o.dims, o.format⟩ else none

section Known

variable (known : String → Option Outline)

/-- Shape behind a name. -/
def dimsOf (name : String) : Dims :=
  ((known name).map (·.dims)).getD ⟨0, 0⟩

/-- Format behind a name. -/
def formatOf (name : String) : DataFormat :=
  ((known name).map (·.format)).getD .float16b

/-- The outline of a stage's output: the outer dimensions of a matrix product, otherwise the first
source. -/
def StageSpec.result (s : StageSpec) : Outline :=
  match s.arithmetic, s.loader.sourceB with
  | .matmul, some b =>
    ⟨⟨(dimsOf known s.loader.sourceA).rows, (dimsOf known b).cols⟩, s.outputFormat⟩
  | _, _ => ⟨dimsOf known s.loader.sourceA, s.outputFormat⟩

/-- After a stage its output is known as well. -/
def learn (s : StageSpec) (name : String) : Option Outline :=
  if name = s.output then some (s.result known) else known name

end Known

/-- The outlines that are known after a list of stages. -/
def outlines (r : Registry) (specs : List StageSpec) : String → Option Outline :=
  specs.foldl learn r.inputs

/-! ## Conditions on one stage -/

/-- Names that a stage reads. -/
def StageSpec.sources (s : StageSpec) : List String :=
  s.loader.sourceA :: s.loader.sourceB.toList

/-- The first stage finds an empty accumulator, and every other one takes over the output of the
stage in front. -/
def Chained : Option StageSpec → StageSpec → Prop
  | none, s => s.loader.reuse = .none
  | some previous, s => s.loader.reuse ≠ .none ∧ s.loader.reused = some previous.output

/-- The units of a stage go together on a platform. -/
structure Combination (platform : Platform) (s : StageSpec) : Prop where
  /-- The loader delivers what the arithmetic unit takes. -/
  feeds : feeds s.loader.kind s.arithmetic = true
  /-- Only the direct loader leaves an operand to the accumulator, and only two units read it. -/
  reuse : s.loader.reuse ≠ .none →
    s.loader.kind = .direct ∧ (s.arithmetic = .datacopy ∨ ∃ op, s.arithmetic = .eltwise op)
  /-- One platform can neither reduce nor tilize. -/
  quasar : platform = .quasar →
    s.arithmetic.isReduce = false ∧ s.loader.kind ≠ .reduce ∧ s.loader.kind ≠ .tilize
  /-- As many operands are read from memory as the unit takes. -/
  count : s.loader.fresh.length = freshWanted s

/-- Positive numbers of whole tiles in both directions. -/
def Dims.Whole (d : Dims) : Prop :=
  0 < d.rows ∧ 0 < d.cols ∧ tileSide ∣ d.rows ∧ tileSide ∣ d.cols

/-- The shapes of a stage's sources suit it. -/
structure Shaped (known : String → Option Outline) (s : StageSpec) : Prop where
  /-- Every source is made of whole tiles. -/
  whole : ∀ n ∈ s.sources, (dimsOf known n).Whole
  /-- The inner dimensions of a matrix product agree. -/
  inner : s.arithmetic = .matmul → ∀ b, s.loader.sourceB = some b →
    (dimsOf known s.loader.sourceA).cols = (dimsOf known b).rows
  /-- Elementwise operands have one shape, unless the second one is a scalar. -/
  equal : ∀ op, s.arithmetic = .eltwise op → s.loader.kind.spread ≠ .scalar →
    ∀ b, s.loader.sourceB = some b → dimsOf known s.loader.sourceA = dimsOf known b

/-- What the formats of a stage depend on: the operands that it reads from memory, or the reused
one when there are none. -/
def requestOf (settings : Settings) (known : String → Option Outline) (s : StageSpec) :
    FormatRequest :=
  { load := formatOf known (s.loader.fresh.head?.getD s.loader.sourceA)
    store := s.outputFormat
    accumulate := settings.accumulate
    unpackToDest := s.unpackToDest
    platform := settings.platform
    secondary := s.loader.fresh[1]?.map (formatOf known) }

/-! ## Conditions on the list -/

/-- Every buffer that a build of `specs` knows, in declaration order, with the location asked for:
the caller's declarations, and then the outputs that the caller has not declared. -/
def entries (r : Registry) (specs : List StageSpec) : List (String × Location) :=
  r.operands.map (fun o => (o.name, o.location)) ++
    (specs.filter fun s => (r.find? s.output).isNone).map fun s => (s.output, .floating)

/-- The buffers that have contents in the end. -/
def buffers (r : Registry) (specs : List StageSpec) : List Buffer :=
  (entries r specs).filterMap fun e => (outlines r specs e.1).map fun g => ⟨e.2, g.bytes⟩

/-- A list of stages that can be built on the declarations of `r`. -/
structure Valid (r : Registry) (specs : List StageSpec) (settings : Settings) : Prop where
  /-- There is a stage. -/
  nonempty : specs ≠ []
  /-- A batch has a tile. -/
  batch : 1 ≤ settings.batchSize
  /-- On one platform either all stages tilize or none does. -/
  tilize : settings.platform = .blackhole →
    (∀ s ∈ specs, s.loader.kind = .tilize) ∨ ∀ s ∈ specs, s.loader.kind ≠ .tilize
  /-- The first stage reuses nothing. -/
  first : ∀ s : StageSpec, specs[0]? = some s → s.loader.reuse = .none
  /-- Every other stage reuses the output of the one in front. -/
  later : ∀ (i : Nat) (s t : StageSpec), specs[i]? = some s → specs[i + 1]? = some t →
    t.loader.reuse ≠ .none ∧ t.loader.reused = some s.output
  /-- The units of every stage go together. -/
  combination : ∀ s ∈ specs, Combination settings.platform s
  /-- Every source is an input or the output of a stage in front. -/
  sources : ∀ (i : Nat) (s : StageSpec), specs[i]? = some s → ∀ n ∈ s.sources,
    (∃ o ∈ r.operands, o.name = n ∧ o.role = .input) ∨
      ∃ j < i, ∃ t : StageSpec, specs[j]? = some t ∧ t.output = n
  /-- No output is an input. -/
  outputs : ∀ s ∈ specs, ∀ o ∈ r.operands, o.name = s.output → o.role ≠ .input
  /-- No two stages have one output. -/
  distinct : ∀ (i j : Nat) (s t : StageSpec), specs[i]? = some s → specs[j]? = some t →
    s.output = t.output → i = j
  /-- A declared output was declared for the stage that writes it. -/
  producers : ∀ (i : Nat) (s : StageSpec), specs[i]? = some s →
    ∀ o ∈ r.operands, o.name = s.output → o.producer = some i
  /-- The shapes of the sources suit every stage. -/
  shapes : ∀ (i : Nat) (s : StageSpec), specs[i]? = some s → Shaped (outlines r (specs.take i)) s
  /-- The formats of every stage can be realised. -/
  formats : ∀ (i : Nat) (s : StageSpec), specs[i]? = some s →
    ∃ plan, (requestOf settings (outlines r (specs.take i)) s).plan = .ok plan
  /-- A batch of every stage fits in the accumulator. -/
  capacity : ∀ (i : Nat) (s : StageSpec), specs[i]? = some s →
    settings.batchSize ≤ accumulatorCapacity settings.platform
      (needsWideDest (requestOf settings (outlines r (specs.take i)) s)) settings.destSync
  /-- The size of every output is a word. -/
  sizes : ∀ (i : Nat) (s : StageSpec), specs[i]? = some s →
    (s.result (outlines r (specs.take i))).bytes < wordLimit
  /-- So is the end of an output that is pinned. -/
  ends : ∀ (i : Nat) (s : StageSpec), specs[i]? = some s →
    ∀ o ∈ r.operands, o.name = s.output → ∀ a, o.location = .pinned a →
      a + (s.result (outlines r (specs.take i))).bytes < wordLimit
  /-- All buffers can be placed. -/
  placement : Placeable (buffers r specs)

/-! ## What the checks decide -/

theorem isReuse_iff (x : Reuse) : x.isReuse = true ↔ x ≠ .none := by
  cases x <;> decide

theorem fusionFaults_eq_nil_iff (site : Site) :
    fusionFaults site = [] ↔ Chained site.previous site.spec := by
  unfold fusionFaults Chained
  cases site.previous with
  | none => cases site.spec.loader.reuse <;> simp [Reuse.isReuse]
  | some previous =>
    by_cases hreuse : site.spec.loader.reuse.isReuse = true
    · have hne := (isReuse_iff _).mp hreuse
      simp only [hreuse, Bool.not_true, Bool.false_eq_true, if_false]
      cases hr : site.spec.loader.reused with
      | none => simp
      | some name =>
        by_cases hn : name = previous.output
        · simp [hn, hne]
        · simp [hn]
    · have heq : site.spec.loader.reuse = .none := by
        by_contra h
        exact hreuse ((isReuse_iff _).mpr h)
      simp [heq, Reuse.isReuse]

theorem operandCountFaults_eq_nil_iff (s : StageSpec) :
    operandCountFaults s = [] ↔ s.loader.fresh.length = freshWanted s := by
  unfold operandCountFaults
  by_cases h : s.loader.fresh.length = freshWanted s <;> simp [h]

/-- The list of restrictions is empty when each of its five parts is. -/
theorem restrictions_eq_nil_iff (platform : Platform) (s : StageSpec) :
    restrictions platform s = [] ↔
      feeds s.loader.kind s.arithmetic = true ∧
      (s.loader.reuse ≠ .none →
        s.loader.kind = .direct ∧ (s.arithmetic = .datacopy ∨ ∃ op, s.arithmetic = .eltwise op)) ∧
      (platform = .quasar →
        s.arithmetic.isReduce = false ∧ s.loader.kind ≠ .reduce ∧ s.loader.kind ≠ .tilize) := by
  have hite : ∀ {c : Prop} [Decidable c] (x : Restriction),
      ((if c then [x] else []) = []) ↔ ¬c := by
    intro c _ x
    by_cases hc : c <;> simp [hc]
  unfold restrictions
  simp only [List.append_eq_nil_iff, hite, ite_eq_left_iff, reduceCtorEq, imp_false, not_not,
    Bool.and_eq_true, isReuse_iff, bne_iff_ne, ne_eq, not_and, beq_iff_eq, Bool.or_eq_true, not_or,
    Bool.not_eq_true', Bool.not_eq_true, Bool.not_eq_false]
  -- the unit decides whether the accumulator may be read; the rest is regrouping
  cases s.arithmetic <;> simp <;> tauto

theorem descriptionCauses_eq_nil_iff (platform : Platform) (site : Site) :
    descriptionCauses platform site = [] ↔
      Chained site.previous site.spec ∧ Combination platform site.spec := by
  unfold descriptionCauses
  rw [List.append_eq_nil_iff, List.append_eq_nil_iff, List.map_eq_nil_iff, List.map_eq_nil_iff,
    List.map_eq_nil_iff, fusionFaults_eq_nil_iff, restrictions_eq_nil_iff,
    operandCountFaults_eq_nil_iff]
  constructor
  · rintro ⟨⟨hf, hfeeds, hreuse, hquasar⟩, hcount⟩
    exact ⟨hf, hfeeds, hreuse, hquasar, hcount⟩
  · rintro ⟨hf, hfeeds, hreuse, hquasar, hcount⟩
    exact ⟨⟨hf, hfeeds, hreuse, hquasar⟩, hcount⟩

theorem isWhole_iff (d : Dims) : d.isWhole = true ↔ d.Whole := by
  unfold Dims.isWhole Dims.Whole
  simp only [Bool.and_eq_true, bne_iff_ne, ne_eq, beq_iff_eq, Nat.dvd_iff_mod_eq_zero,
    Nat.pos_iff_ne_zero, and_assoc]

/-- The shapes of two sources suit a stage. -/
structure Fitting (s : StageSpec) (a : Operand) (b : Option Operand) : Prop where
  whole : ∀ o ∈ a :: b.toList, o.dims.Whole
  inner : s.arithmetic = .matmul → ∀ o, b = some o → a.dims.cols = o.dims.rows
  equal : ∀ op, s.arithmetic = .eltwise op → s.loader.kind.spread ≠ .scalar →
    ∀ o, b = some o → a.dims = o.dims

theorem shapeFaults_eq_nil_iff (s : StageSpec) (a : Operand) (b : Option Operand) :
    shapeFaults s a b = [] ↔ Fitting s a b := by
  have hwhole : tileFaults (a :: b.toList) = [] ↔ ∀ o ∈ a :: b.toList, o.dims.Whole := by
    unfold tileFaults
    rw [List.filterMap_eq_nil_iff]
    refine forall₂_congr fun o _ => ?_
    rw [← isWhole_iff]
    by_cases ho : o.dims.isWhole = true <;> simp [ho]
  have hagree : agreementFaults s a b = [] ↔
      (s.arithmetic = .matmul → ∀ o, b = some o → a.dims.cols = o.dims.rows) ∧
        ∀ op, s.arithmetic = .eltwise op → s.loader.kind.spread ≠ .scalar →
          ∀ o, b = some o → a.dims = o.dims := by
    unfold agreementFaults
    cases b with
    | none => cases s.arithmetic <;> simp
    | some o =>
      cases s.arithmetic with
      | eltwise op =>
        by_cases hs : s.loader.kind.spread = .scalar
        · simp [hs]
        · by_cases hd : a.dims = o.dims <;> simp [hs, hd]
      | reduce dim pool => simp
      | matmul => by_cases hd : a.dims.cols = o.dims.rows <;> simp [hd]
      | datacopy => simp
  unfold shapeFaults
  rw [List.append_eq_nil_iff, hwhole, hagree]
  constructor
  · rintro ⟨hw, hi, he⟩
    exact ⟨hw, hi, he⟩
  · rintro ⟨hw, hi, he⟩
    exact ⟨hw, hi, he⟩

/-! ## Small facts about outlines -/

theorem outlines_append (r : Registry) (specs : List StageSpec) (s : StageSpec) :
    outlines r (specs ++ [s]) = learn (outlines r specs) s := by
  rw [outlines, List.foldl_append]
  rfl

/-- A name is known when it is an input or the output of one of the stages. -/
theorem isSome_outlines_iff (r : Registry) (specs : List StageSpec) (name : String) :
    (outlines r specs name).isSome = true ↔
      (r.inputs name).isSome = true ∨ ∃ t ∈ specs, t.output = name := by
  induction specs using List.reverseRecOn with
  | nil => simp [outlines]
  | append_singleton specs s ih =>
    rw [outlines_append, learn]
    by_cases hn : name = s.output
    · rw [if_pos hn]
      simp [hn]
    · have hs : s.output ≠ name := fun h => hn h.symm
      rw [if_neg hn, ih]
      simp [hs]

theorem isSome_inputs_iff {r : Registry} (hr : r.WellFormed) (name : String) :
    (r.inputs name).isSome = true ↔ ∃ o ∈ r.operands, o.name = name ∧ o.role = .input := by
  unfold Registry.inputs
  constructor
  · intro h
    cases hf : r.find? name with
    | none => rw [hf] at h; simp at h
    | some o =>
      rw [hf] at h
      by_cases ho : o.role = .input
      · exact ⟨o, Registry.mem_of_find? hf, Registry.name_of_find? hf, ho⟩
      · simp [ho] at h
  · rintro ⟨o, ho, rfl, hrole⟩
    rw [hr.find?_name ho]
    simp [hrole]

/-- A buffer takes at least as many bytes as it has tiles. -/
theorem tiles_lt_of_bytes_lt {d : Dims} {f : DataFormat}
    (h : d.tileRows * d.tileCols * f.tileBytes < wordLimit) :
    d.tileRows * d.tileCols < wordLimit := by
  have hpos : 1 ≤ f.tileBytes := by cases f <;> decide
  calc d.tileRows * d.tileCols = d.tileRows * d.tileCols * 1 := (Nat.mul_one _).symm
    _ ≤ d.tileRows * d.tileCols * f.tileBytes := Nat.mul_le_mul_left _ hpos
    _ < wordLimit := h

end TileFusion
