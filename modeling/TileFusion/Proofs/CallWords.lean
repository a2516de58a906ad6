import TileFusion.Proofs.Words

/-!
# Parts of a call

A call is written out with the identifiers of its stage and the variables of the loops around it.
`Call.names` lists them, call by call. Everything else in its lines is fixed, or a number, or the
spelling of an operation, and has any property that can be read off parts (`Partwise`).

> `Call.lines_of_parts`: so the lines of a call have such a property on every platform as soon as
> its identifiers have it;
> `Call.mentions_lines`: they have no other identifiers.

This is the only place that looks into the lines of calls; `Partwise` has one lemma for each kind of
part that stands there.
-/

namespace TileFusion

open StageNames

/-- The identifiers that the lines of a call use. -/
def Call.names : Call → List String
  | .unpackConfigure c | .unpackReconfigure c =>
    [unpackSourceA c.stage, unpackSourceB c.stage, unpackTargetA c.stage, unpackTargetB c.stage]
  | .unpackPair s _ | .unpackReduce s _ _ => [bufferA s, bufferB s, "tile_idx"]
  | .unpackSingleInit s .. | .unpackTilizeInit s _ => [unpackSourceA s, unpackTargetA s]
  | .unpackSingle s .. => [bufferA s, unpackSourceA s, unpackTargetA s, "tile_idx"]
  | .unpackMatmul s .. => [bufferA s, bufferB s, "tile_idx", "kt"]
  | .unpackTilize s _ => [bufferA s, unpackSourceA s, "tile_idx"]
  | .mathConfigure s _ | .mathReconfigure s _ | .datacopyInit s .. | .unary s .. | .binary s .. =>
    [mathFormat s]
  | .mathSyncInit s _ | .waitForDest s | .destSectionDone s _ | .binaryStart s => [destSync s]
  | .eltwise s .. | .unaryStart s => [destSync s, "i"]
  | .reduce _ | .matmul _ => ["i"]
  | .datacopy s .. => [mathFormat s, destSync s, "i"]
  | .packConfigure s .. | .packReconfigure s .. => [packSource s, packTarget s]
  | .packInit s .. => [packTarget s]
  | .pack s .. => [bufferResult s, "i", "tile_idx"]
  | _ => []

/-- The variables of an index expression. -/
def Index.variables : Index → List String
  | .const _ => []
  | .var name => [name]
  | .add x y | .mul x y | .div x y | .mod x y => x.variables ++ y.variables

/-! ## Numbers -/

/-- A text is put into a text as it is. -/
theorem toString_string (text : String) : toString text = text := rfl

/-- A character of a number, with a point and an exponent or without. -/
def isDecimalChar (c : Char) : Bool :=
  c.isDigit || c == '.' || c == '-' || c == 'e'

/-- No word to be declared begins in a decimal. -/
theorem isInert_of_isDecimalChar {c : Char} (h : isDecimalChar c = true) : isInert c = true := by
  have hstems : stemLetters.all (!isDecimalChar ·) = true := by decide
  have hstem : c ∉ stemLetters := by
    intro hc
    simpa [h] using List.all_eq_true.mp hstems c hc
  have hbreak : c ≠ '\n' := by
    rintro rfl
    exact absurd h (by decide)
  simp [isInert, hstem, hbreak]

theorem isDigit_of_mem_toString {n : Nat} {c : Char} (hc : c ∈ (toString n).toList) :
    c.isDigit = true := by
  rw [Nat.toString_eq_ofList_toDigits, String.toList_ofList] at hc
  exact Nat.isDigit_of_mem_toDigits (by decide) (by decide) hc

theorem isDecimalChar_of_mem_toString {n : Nat} {c : Char} (hc : c ∈ (toString n).toList) :
    isDecimalChar c = true := by
  simp [isDecimalChar, isDigit_of_mem_toString hc]

theorem toList_pushn (text : String) (c : Char) (n : Nat) :
    (text.pushn c n).toList = text.toList ++ List.replicate n c := by
  induction n with
  | zero => simp [String.pushn, Nat.repeat]
  | succ n ih =>
    rw [List.replicate_succ', ← List.append_assoc, ← ih]
    simp [String.pushn, Nat.repeat]

/-- An exponent may have a sign. -/
theorem isDecimalChar_of_mem_toString_int {n : Int} {c : Char} (hc : c ∈ (toString n).toList) :
    isDecimalChar c = true := by
  cases n with
  | ofNat n => exact isDecimalChar_of_mem_toString (n := n) hc
  | negSucc n =>
    have htext : toString (Int.negSucc n) = "-" ++ toString (n + 1) := rfl
    rw [htext, String.toList_append, List.mem_append] at hc
    rcases hc with hc | hc
    · have hsign : c = '-' := by simpa using hc
      rw [hsign]
      decide
    · exact isDecimalChar_of_mem_toString hc

theorem isDecimalChar_of_mem_pushn {n : Nat} {c : Char} (hc : c ∈ ("".pushn '0' n).toList) :
    isDecimalChar c = true := by
  rw [toList_pushn, String.toList_empty, List.nil_append] at hc
  rw [List.eq_of_mem_replicate hc]
  decide

/-- Digits around a point, filled up with zeros on either side. -/
theorem Decimal.isDecimalChar_of_mem_positional (d : Decimal) :
    ∀ c ∈ d.positional.toList, isDecimalChar c = true := by
  have hdigits : ∀ c ∈ (toString d.digits).toList, isDecimalChar c = true :=
    fun c => isDecimalChar_of_mem_toString
  have hzeros : ∀ n, ∀ c ∈ ("".pushn '0' n).toList, isDecimalChar c = true :=
    fun n c => isDecimalChar_of_mem_pushn
  have hpoint : ∀ c ∈ ".".toList, isDecimalChar c = true := List.all_eq_true.mp (by decide)
  have hzero : ∀ c ∈ ".0".toList, isDecimalChar c = true := List.all_eq_true.mp (by decide)
  unfold Decimal.positional
  split
  · simp only [String.toList_append, List.forall_mem_append]
    exact ⟨⟨hdigits, hzeros _⟩, hzero⟩
  · have hpadded : ∀ n, ∀ c ∈ ("".pushn '0' n ++ toString d.digits).toList,
        isDecimalChar c = true := by
      intro n
      simp only [String.toList_append, List.forall_mem_append]
      exact ⟨hzeros n, hdigits⟩
    rw [String.toList_append, String.toList_append, List.forall_mem_append,
      List.forall_mem_append]
    refine ⟨⟨?_, hpoint⟩, ?_⟩
    · rw [String.toList_ofList]
      exact fun c hc => hpadded _ c (List.mem_of_mem_take hc)
    · rw [String.toList_ofList]
      exact fun c hc => hpadded _ c (List.mem_of_mem_drop hc)

/-- Digits with a point behind the first, and an exponent. -/
theorem Decimal.isDecimalChar_of_mem_scientific (d : Decimal) :
    ∀ c ∈ d.scientific.toList, isDecimalChar c = true := by
  have hdigits : ∀ c ∈ (toString d.digits).toList, isDecimalChar c = true :=
    fun c => isDecimalChar_of_mem_toString
  have hpoint : ∀ c ∈ ".".toList, isDecimalChar c = true := List.all_eq_true.mp (by decide)
  have hexp : ∀ c ∈ "e".toList, isDecimalChar c = true := List.all_eq_true.mp (by decide)
  have htail : ∀ c ∈ (String.ofList ((toString d.digits).toList.drop 1)).toList,
      isDecimalChar c = true := by
    rw [String.toList_ofList]
    exact fun c hc => hdigits c (List.mem_of_mem_drop hc)
  unfold Decimal.scientific
  simp only [toString_string, String.toList_append, List.forall_mem_append]
  refine ⟨⟨?_, ?_⟩, hexp, fun c => isDecimalChar_of_mem_toString_int⟩
  · rw [String.toList_ofList]
    exact fun c hc => hdigits c (List.mem_of_mem_take hc)
  · split
    · simp
    · rw [String.toList_append, List.forall_mem_append]
      exact ⟨hpoint, htail⟩

/-- Either way, a decimal has no other characters. -/
theorem Decimal.isDecimalChar_of_mem_text (d : Decimal) :
    ∀ c ∈ d.text.toList, isDecimalChar c = true := by
  unfold Decimal.text
  dsimp only
  split
  · exact d.isDecimalChar_of_mem_positional
  · exact d.isDecimalChar_of_mem_scientific

/-- A fill value with its suffix: a decimal, an infinity or what is not a number. The suffix belongs
to its last word. -/
theorem isFixed_scalar {l : Layout} (x : Scalar l) :
    isFixed false (x.text ++ "f);").toList = true := by
  have hsuffix : ∀ c ∈ "f);".toList, isInert c = true := List.all_eq_true.mp (by decide)
  have hdecimal : ∀ text : String, (∀ c ∈ text.toList, isDecimalChar c = true) →
      isFixed false (text ++ "f);").toList = true := by
    intro text htext
    apply isFixed_of_isInert
    rw [String.toList_append, List.forall_mem_append]
    exact ⟨fun c hc => isInert_of_isDecimalChar (htext c hc), hsuffix⟩
  have hsign : ∀ c ∈ (if x.negative = true then "-" else "").toList, isDecimalChar c = true := by
    split <;> exact List.all_eq_true.mp (by decide)
  unfold Scalar.text
  by_cases hfinite : x.isFinite = true
  · rw [if_pos hfinite]
    apply hdecimal
    by_cases hzero : x.magnitude = 0
    · rw [if_pos hzero, String.toList_append, List.forall_mem_append]
      exact ⟨hsign, List.all_eq_true.mp (by decide)⟩
    · rw [if_neg hzero, String.toList_append, List.forall_mem_append]
      exact ⟨hsign, Decimal.isDecimalChar_of_mem_text _⟩
  · rw [if_neg hfinite]
    by_cases hinf : x.magnitude = l.infinity
    · rw [if_pos hinf]
      cases x.negative <;> decide +kernel
    · rw [if_neg hinf]
      decide +kernel

/-- Digits of an address, letters among them. -/
theorem isWordChar_of_mem_hexDigits (n : Nat) :
    ∀ c ∈ Nat.toDigits 16 n, isWordChar c = true := by
  have hdigit : ∀ d < 16, isWordChar (Nat.digitChar d) = true := by decide
  induction n using Nat.strongRecOn with
  | _ n ih =>
    rw [Nat.toDigits_eq_if (by decide)]
    split
    next hlt => exact List.forall_mem_singleton.mpr (hdigit n hlt)
    next hle =>
      rw [List.forall_mem_append]
      refine ⟨ih (n / 16) (by omega), List.forall_mem_singleton.mpr (hdigit _ (by omega))⟩

/-- An address is one word, which begins with a digit. -/
theorem isFixed_hexText (n : Nat) : isFixed false (hexText n).toList = true := by
  have htext : (hexText n).toList = '0' :: 'x' :: Nat.toDigits 16 n := by simp [hexText]
  have hword : IsWord (hexText n) := by
    rw [IsWord, htext, List.forall_mem_cons, List.forall_mem_cons]
    exact ⟨by simp, by decide, by decide, isWordChar_of_mem_hexDigits n⟩
  exact hword.isFixed (htext ▸ isPlain_of_isInert (by decide) _)

/-! ## Parts of a call -/

namespace Partwise

variable {P : String → Prop}

/-- Natural numbers. -/
theorem number (hP : Partwise P) (n : Nat) : P (toString n) :=
  hP.plain (isFixed_of_isInert fun _ hc =>
    isInert_of_isDecimalChar (isDecimalChar_of_mem_toString hc))

theorem hexText (hP : Partwise P) (n : Nat) : P (hexText n) :=
  hP.plain (isFixed_hexText n)

/-- A fill value up to the end of its line. -/
theorem scalar (hP : Partwise P) {l : Layout} (x : Scalar l) : P (x.text ++ "f);") :=
  hP.plain (isFixed_scalar x)

/-- Truth values; like the spellings of operations below, both are fixed texts. -/
theorem flag (hP : Partwise P) (b : Bool) : P (flag b) := by
  cases b <;> exact hP.alone (isSeam_ofList (by decide))

theorem bit (hP : Partwise P) (b : Bool) : P (bit b) := by
  cases b <;> exact hP.alone (isSeam_ofList (by decide))

theorem broadcast (hP : Partwise P) (x : Broadcast) : P x.code := by
  cases x <;> exact hP.alone (isSeam_ofList (by decide))

theorem reuse (hP : Partwise P) (x : Reuse) : P x.code := by
  cases x <;> exact hP.alone (isSeam_ofList (by decide))

theorem pool (hP : Partwise P) (x : Pool) : P x.code := by
  cases x <;> exact hP.alone (isSeam_ofList (by decide))

theorem reduceDim (hP : Partwise P) (x : ReduceDim) : P x.code := by
  cases x <;> exact hP.alone (isSeam_ofList (by decide))

theorem eltwiseOp (hP : Partwise P) (x : EltwiseOp) : P x.code := by
  cases x <;> exact hP.alone (isSeam_ofList (by decide))

theorem unaryOp (hP : Partwise P) (x : UnaryOp) : P x.code := by
  cases x <;> exact hP.alone (isSeam_ofList (by decide))

theorem copySource (hP : Partwise P) (x : CopySource) : P x.code := by
  cases x <;> exact hP.alone (isSeam_ofList (by decide))

theorem destSync (hP : Partwise P) (x : DestSync) : P x.code := by
  cases x <;> exact hP.alone (isSeam_ofList (by decide))

theorem dataFormat (hP : Partwise P) (x : DataFormat) : P x.name := by
  cases x <;> exact hP.alone (isSeam_ofList (by decide))

/-- A spelling that is made of a name is no literal, but can be computed. -/
theorem fidelity (hP : Partwise P) (x : Fidelity) : P x.code := by
  cases x <;> exact hP.alone (by decide +kernel)

theorem binaryOp (hP : Partwise P) (x : BinaryOp) : P x.code := by
  cases x <;> exact hP.alone (by decide +kernel)

theorem tensorShape (hP : Partwise P) : P tensorShape :=
  hP.alone (isSeam_ofList (by decide))

/-- The number of a format is written with its name. -/
theorem formatValue (hP : Partwise P) (format : DataFormat) : P (formatValue format) := by
  unfold TileFusion.formatValue
  simp (disch := with_reducible apply isSeam_ofList; decide) only [toString_string,
    String.append_assoc, hP.front, hP.back, hP.dataFormat]

/-- Brackets change nothing. -/
theorem bracketed (hP : Partwise P) (x : Index) (text : String) :
    P (x.bracketed text) ↔ P text := by
  unfold Index.bracketed
  split
  · rfl
  · rfl
  · simp (disch := with_reducible apply isSeam_ofList; decide) only [toString_string,
      String.append_assoc, hP.front, hP.back]

/-- An expression has the property if its variables have it. -/
theorem index (hP : Partwise P) (x : Index) : P x.text ↔ ∀ name ∈ x.variables, P name := by
  induction x with
  | const value => exact iff_of_true (hP.number value) (by simp [Index.variables])
  | var name => simp [Index.text, Index.variables]
  | add x y hx hy | mul x y hx hy | div x y hx hy | mod x y hx hy =>
    rw [Index.variables, List.forall_mem_append, ← hx, ← hy, Index.text]
    simp (disch := with_reducible apply isSeam_ofList; decide) only [toString_string,
      String.append_assoc, hP.between, hP.bracketed]

/-- The address of a tile, by what the buffer and the place are written with. -/
theorem tileAddress (hP : Partwise P) (buffer : String) (x : Index) :
    P (tileAddress buffer x) ↔ P buffer ∧ ∀ name ∈ x.variables, P name := by
  unfold TileFusion.tileAddress
  simp (disch := with_reducible apply isSeam_ofList; decide) only [toString_string,
    String.append_assoc, hP.front, hP.between, hP.back, hP.index]

end Partwise

/-! ## Identifiers -/

theorem isWordChar_of_isDigit {c : Char} (h : c.isDigit = true) : isWordChar c = true := by
  simp [isWordChar, Char.isAlphanum, h]

/-- A label with a number behind it is still one word. -/
theorem isWord_numbered {label : String} (h : label.toList.all isWordChar = true) (stage : Nat) :
    IsWord (numbered label stage) := by
  unfold IsWord numbered
  rw [String.toList_append]
  refine ⟨by simp, ?_⟩
  intro c hc
  rcases List.mem_append.mp hc with hc | hc
  · exact List.all_eq_true.mp h c hc
  · exact isWordChar_of_isDigit (isDigit_of_mem_toString hc)

/-- No label has a blank or a sign in it. -/
theorem isWordChar_of_mem_stageLabels :
    ∀ label ∈ stageLabels, label.toList.all isWordChar = true := by
  decide +kernel

/-- What the identifiers of a stage begin with, in the order in which it lists them. -/
def allLabels : List String :=
  ["buffer_A", "buffer_B", "buffer_Res", "unpack_a_src_format", "unpack_a_dst_format",
    "unpack_b_src_format", "unpack_b_dst_format", "math_format", "dest_sync", "pack_src_format",
    "pack_dst_format"]

theorem all_eq_map (s : Nat) : StageNames.all s = allLabels.map (numbered · s) :=
  rfl

/-- The identifiers of a stage are words. -/
theorem isWord_stageName (s : Nat) : ∀ name ∈ StageNames.all s, IsWord name := by
  have hlabels : ∀ label ∈ allLabels, label ∈ stageLabels := by decide
  rw [all_eq_map, List.forall_mem_map]
  exact fun label hlabel =>
    isWord_numbered (isWordChar_of_mem_stageLabels label (hlabels label hlabel)) s

/-- So are the variables of loops. -/
theorem isWord_of_mem_loopNames : ∀ name ∈ loopNames, IsWord name := by
  have hall : ∀ name ∈ loopNames, name.toList ≠ [] ∧ name.toList.all isWordChar = true := by
    decide +kernel
  intro name hname
  exact ⟨(hall name hname).1, List.all_eq_true.mp (hall name hname).2⟩

/-- So is whatever a call is written with. -/
theorem Call.isWord_names (call : Call) : ∀ name ∈ call.names, IsWord name := by
  have hnames := isWord_stageName
  have hloops := isWord_of_mem_loopNames
  simp only [StageNames.all, loopNames, List.forall_mem_cons] at hnames hloops
  cases call <;> simp [Call.names, hnames, hloops]

/-! ## Lines of a call -/

/-- Two fixed parts that meet on some platforms: an item at the end, and what is in front of the
next one. -/
theorem false_append_comma (rest : String) : ", false" ++ (", " ++ rest) = ", false, " ++ rest := by
  rw [← String.append_assoc]
  rfl

theorem false_append_end (rest : String) : ", false" ++ (">(" ++ rest) = ", false>(" ++ rest := by
  rw [← String.append_assoc]
  rfl

/-- A character that a line can begin with: neither a blank nor a brace. -/
def beginsLine (c : Char) : Bool :=
  c != ' ' && c != '\x7b' && c != '\x7d'

/-- A fixed part that a line can begin with. -/
def isBeginning (text : List Char) : Bool :=
  text.head?.any beginsLine

/-- A text that can be told from the blanks in front of it, and from a brace. -/
def Begins (text : String) : Prop :=
  isBeginning text.toList = true

theorem isBeginning_ofList {text : List Char} (h : isBeginning text = true) :
    isBeginning (String.ofList text).toList = true := by
  rwa [String.toList_ofList]

/-- A line that is all literal. -/
theorem begins_alone {lit : String} (h : isBeginning lit.toList = true) : Begins lit := h

/-- How a line begins is settled by what it begins with. -/
theorem begins_front {lit rest : String} (h : isBeginning lit.toList = true) :
    Begins (lit ++ rest) := by
  unfold isBeginning at h
  unfold Begins isBeginning
  rw [String.toList_append]
  cases hchars : lit.toList with
  | nil => simp [hchars] at h
  | cons c cs => simpa [hchars] using h

section Lines

variable {P : String → Prop}

/-- Unpack thread. -/
theorem Call.unpackLines_of_parts (hP : Partwise P) (wormhole : Bool) (call : Call)
    (hnames : ∀ name ∈ call.names, P name) :
    ∀ line ∈ unpackLines wormhole call, Begins line ∧ P line := by
  unfold unpackLines
  cases call
  -- calls of the other threads have no lines
  all_goals try exact List.forall_mem_nil _
  case' unpackPairInit spread transpose => cases wormhole
  case' unpackReduceInit pool dim => cases wormhole
  case' unpackPair s spread => cases spread
  all_goals
    simp only [Call.names, List.forall_mem_cons, List.not_mem_nil, false_implies, implies_true,
      and_true] at hnames
  -- of what stands between the fixed parts, only identifiers are left
  all_goals
    simp (disch := first
        | with_reducible apply isBeginning_ofList; decide
        | with_reducible apply isSeam_ofList; decide) only [List.forall_mem_cons,
      List.not_mem_nil, false_implies, implies_true, toString_string, String.append_assoc, if_true,
      Bool.false_eq_true, if_false, begins_alone, begins_front, hP.front, hP.between, hP.back,
      hP.alone, hP.flag, hP.bit, hP.number, hP.broadcast, hP.reuse, hP.pool, hP.reduceDim,
      hP.tensorShape, hP.tileAddress, hP.index, false_append_comma, hnames, true_and, and_true]
  all_goals
    simp [Index.variables, Index.second, Index.tile, Index.leftFactor, Index.rightFactor,
      Index.tilizedRow, Index.tilizedColumn, Index.inner, hnames]

/-- Math thread. Some of its calls are spelled differently from platform to platform. -/
theorem Call.mathLines_of_parts (hP : Partwise P) (platform : Platform) (wormhole : Bool)
    (call : Call) (hnames : ∀ name ∈ call.names, P name) :
    ∀ line ∈ mathLines platform wormhole call, Begins line ∧ P line := by
  unfold mathLines
  cases call
  all_goals try exact List.forall_mem_nil _
  case' mathConfigure s wide => cases platform
  case' binary s op approximate iterations first second result => cases op
  case' reduceUninit format => cases wormhole
  case' datacopyInit s source wide spread tilize => cases wormhole
  case' datacopy s source wide spread unpackToDest => cases wormhole
  all_goals
    simp only [Call.names, List.forall_mem_cons, List.not_mem_nil, false_implies, implies_true,
      and_true] at hnames
  all_goals
    simp (disch := first
        | with_reducible apply isBeginning_ofList; decide
        | with_reducible apply isSeam_ofList; decide) only [List.forall_mem_cons,
      List.not_mem_nil, false_implies, implies_true, toString_string, String.append_assoc,
      String.empty_append, if_true, Bool.false_eq_true, if_false, begins_alone, begins_front,
      hP.front, hP.between, hP.between_place, hP.back, hP.back_place, hP.alone, hP.flag, hP.bit,
      hP.number, hP.broadcast, hP.reuse, hP.pool, hP.reduceDim, hP.eltwiseOp, hP.fidelity,
      hP.copySource, hP.unaryOp, hP.binaryOp, hP.formatValue, hP.scalar, hP.tensorShape, hnames,
      and_true]

/-- Pack thread. -/
theorem Call.packLines_of_parts (hP : Partwise P) (wormhole : Bool) (call : Call)
    (hnames : ∀ name ∈ call.names, P name) :
    ∀ line ∈ packLines wormhole call, Begins line ∧ P line := by
  unfold packLines
  cases call
  all_goals try exact List.forall_mem_nil _
  case' packConfigure s wide tilize words => cases wormhole
  case' packInit s sync wide tilize => cases wormhole
  all_goals
    simp only [Call.names, List.forall_mem_cons, List.not_mem_nil, false_implies, implies_true,
      and_true] at hnames
  all_goals
    simp (disch := first
        | with_reducible apply isBeginning_ofList; decide
        | with_reducible apply isSeam_ofList; decide) only [List.forall_mem_cons,
      List.not_mem_nil, false_implies, implies_true, toString_string, String.append_assoc,
      String.empty_append, if_true, Bool.false_eq_true, if_false, begins_alone, begins_front,
      hP.front, hP.between, hP.back, hP.alone, hP.flag, hP.number, hP.reduceDim, hP.destSync,
      hP.tileAddress, hP.index, false_append_comma, false_append_end, hnames, true_and, and_true]
  all_goals simp [Index.variables, Index.place, Index.tile, hnames]

/-- **The lines of a call**: each can be told from a brace, and has every property that can be read
off parts, as soon as the identifiers of the call have it. -/
theorem Call.lines_of_parts (hP : Partwise P) (platform : Platform) (call : Call)
    (hnames : ∀ name ∈ call.names, P name) :
    ∀ line ∈ call.lines platform, Begins line ∧ P line := by
  unfold Call.lines
  rw [List.forall_mem_append, List.forall_mem_append]
  exact ⟨⟨call.unpackLines_of_parts hP _ hnames, call.mathLines_of_parts hP _ _ hnames⟩,
    call.packLines_of_parts hP _ hnames⟩

end Lines

/-- The lines of a call use its identifiers, and no others. -/
theorem Call.mentions_lines (platform : Platform) (call : Call) :
    ∀ line ∈ call.lines platform, Mentions call.names line := by
  have hnames : ∀ name ∈ call.names, Mentions call.names name := fun name hname =>
    (call.isWord_names name hname).mentions_iff.mpr fun _ => hname
  exact fun line hline => (call.lines_of_parts (partwise_mentions _) platform hnames line hline).2

end TileFusion
