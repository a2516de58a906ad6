import TileFusion.Source.CallText
import TileFusion.Proofs.Identifiers

/-!
# Words of a text

Device code is written as text, so whether an identifier occurs in a line is a question about the
words of the line. `words` cuts a text at every character that no identifier has. It is compatible
with putting texts together as long as no word runs across the seam (`words_append`), and this is
how a line is read whose parts are only known by what they stand for: numbers, names of operations,
identifiers of a stage.

> `isScoped`: the words that a kernel has to declare before it uses them, which are the identifiers
> of stages and the variables of loops;
> `Mentions names text`: of these, the text has only some of `names`;
> `Partwise P`: a property like this one, which can be read off the parts of a text.
-/

namespace TileFusion

/-! ## Cutting a text -/

/-- A character that an identifier can have. -/
def isWordChar (c : Char) : Bool :=
  c.isAlphanum || c == '_'

/-- The longest runs of such characters. -/
def runs (text : List Char) : List (List Char) :=
  (text.splitOnP (!isWordChar ·)).filter (!·.isEmpty)

/-- The words of a text: identifiers, keywords and numbers. -/
def words (text : String) : List String :=
  (runs text.toList).map String.ofList

/-- No word of the text goes on behind it. -/
def isClosed (text : List Char) : Bool :=
  text.getLast?.all (!isWordChar ·)

/-- No word in front goes on in the text. -/
def isOpen (text : List Char) : Bool :=
  text.head?.all (!isWordChar ·)

theorem runs_append_cons {c : Char} (hc : isWordChar c = false) (xs ys : List Char) :
    runs (xs ++ c :: ys) = runs xs ++ runs ys := by
  unfold runs
  rw [List.splitOnP_append_cons _ _ (by rw [hc]; rfl), List.filter_append]

/-- What is in front of a seam, and what is behind it, is cut on its own. -/
theorem runs_append {xs ys : List Char} (h : isClosed xs = true ∨ isOpen ys = true) :
    runs (xs ++ ys) = runs xs ++ runs ys := by
  rcases h with h | h
  · obtain rfl | ⟨front, c, rfl⟩ := xs.eq_nil_or_concat'
    · rfl
    · have hc : isWordChar c = false := by simpa [isClosed] using h
      have hfront : runs (front ++ [c]) = runs front := by
        rw [runs_append_cons hc]
        exact List.append_nil _
      rw [hfront, List.append_assoc, List.singleton_append, runs_append_cons hc]
  · cases ys with
    | nil => exact (by simp [runs])
    | cons c ys =>
      have hc : isWordChar c = false := by simpa [isOpen] using h
      have hback : runs (c :: ys) = runs ys := runs_append_cons hc [] ys
      rw [hback, runs_append_cons hc]

theorem isOpen_append {x y : String} (hne : x.toList ≠ []) (h : isOpen x.toList = true) :
    isOpen (x ++ y).toList = true := by
  obtain ⟨c, cs, hcs⟩ := List.exists_cons_of_ne_nil hne
  rw [hcs] at h
  rw [String.toList_append, hcs]
  exact h

/-- Texts are cut one by one if no word runs across the seam. -/
theorem words_append {x y : String} (h : isClosed x.toList = true ∨ isOpen y.toList = true) :
    words (x ++ y) = words x ++ words y := by
  unfold words
  rw [String.toList_append, runs_append h, List.map_append]

/-- Every word is made of characters of the text, and has at least one. -/
theorem of_mem_runs {text run : List Char} (h : run ∈ runs text) :
    run ≠ [] ∧ ∀ c ∈ run, c ∈ text := by
  obtain ⟨hmem, hne⟩ := List.mem_filter.mp h
  refine ⟨by simpa using hne, ?_⟩
  clear h hne
  induction text generalizing run with
  | nil =>
    simp only [List.splitOnP_nil, List.mem_singleton] at hmem
    simp [hmem]
  | cons c text ih =>
    intro x hx
    rw [List.splitOnP_cons_eq_if_modifyHead] at hmem
    split at hmem
    · rcases List.mem_cons.mp hmem with rfl | hmem
      · simp at hx
      · exact List.mem_cons_of_mem _ (ih hmem x hx)
    · obtain ⟨first, rest, hsplit⟩ :=
        List.exists_cons_of_ne_nil (List.splitOnP_ne_nil (!isWordChar ·) text)
      rw [hsplit, List.modifyHead_cons] at hmem
      rw [hsplit] at ih
      rcases List.mem_cons.mp hmem with rfl | hmem
      · rcases List.mem_cons.mp hx with rfl | hx
        · exact List.mem_cons_self
        · exact List.mem_cons_of_mem _ (ih List.mem_cons_self x hx)
      · exact List.mem_cons_of_mem _ (ih (List.mem_cons_of_mem _ hmem) x hx)

/-- A text that is one word. -/
def IsWord (text : String) : Prop :=
  text.toList ≠ [] ∧ ∀ c ∈ text.toList, isWordChar c = true

theorem IsWord.runs_eq {text : String} (h : IsWord text) : runs text.toList = [text.toList] := by
  unfold runs
  rw [List.splitOnP_eq_singleton fun c hc => by rw [h.2 c hc]; rfl]
  simpa using h.1

theorem IsWord.words_eq {text : String} (h : IsWord text) : words text = [text] := by
  rw [words, h.runs_eq]
  simp

/-! ## Words that are declared -/

open StageNames

/-- The variables of the loops over batches, tiles and the inner dimension. -/
def loopNames : List String :=
  ["batch", "batch_offset", "i", "tile_idx", "kt"]

/-- What the identifiers of a stage begin with. -/
def stageLabels : List String :=
  labels .unpack ++ labels .math ++ labels .pack

/-- A word that has to be declared: a variable of a loop, or one that begins like an identifier of a
stage. -/
def isScoped (word : String) : Bool :=
  loopNames.contains word || stageLabels.any fun label => label.toList.isPrefixOf word.toList

/-- Of the words that have to be declared, the text has only some of `names`. -/
def Mentions (names : List String) (text : String) : Prop :=
  ∀ word ∈ words text, isScoped word = true → word ∈ names

/-- The first letters of the words that have to be declared, apart from `i`. -/
def stems : List (List Char) :=
  [['b', 'a'], ['b', 'u'], ['t', 'i'], ['k', 't'], ['u', 'n', 'p'], ['m', 'a'], ['d', 'e'],
    ['p', 'a']]

/-- A word that does not begin like one that has to be declared. -/
def isPlain (run : List Char) : Bool :=
  run != ['i'] && stems.all (!·.isPrefixOf run)

/-- A declared word can be told by its first letters. -/
theorem exists_stem : ∀ name ∈ loopNames ++ stageLabels, name = "i" ∨
    ∃ stem ∈ stems, stem <+: name.toList := by
  decide +kernel

/-- Such a word never has to be declared. -/
theorem isScoped_eq_false {run : List Char} (h : isPlain run = true) :
    isScoped (String.ofList run) = false := by
  simp only [isPlain, Bool.and_eq_true, bne_iff_ne, List.all_eq_true, Bool.not_eq_true'] at h
  have hname : ∀ name ∈ loopNames ++ stageLabels, name.toList.isPrefixOf run = true →
      name = "i" := by
    intro name hmem hname
    rcases exists_stem name hmem with rfl | ⟨stem, hstem, hstart⟩
    · rfl
    · have hbegins := hstart.trans (List.isPrefixOf_iff_prefix.mp hname)
      rw [← List.isPrefixOf_iff_prefix, h.2 stem hstem] at hbegins
      simp at hbegins
  rw [isScoped, Bool.or_eq_false_iff, List.any_eq_false]
  refine ⟨?_, ?_⟩
  · rw [List.contains_eq_mem, decide_eq_false_iff_not]
    intro hloop
    have hself : (String.ofList run).toList.isPrefixOf run = true := by simp
    have hi := hname _ (List.mem_append_left _ hloop) hself
    exact h.1 (String.ofList_injective hi)
  · intro label hlabel hstart
    rw [String.toList_ofList] at hstart
    rw [hname label (List.mem_append_right _ hlabel) hstart] at hlabel
    exact absurd hlabel (by decide)

/-! ## What a text mentions -/

theorem Mentions.mono {names names' : List String} {text : String} (h : Mentions names text)
    (hsub : names ⊆ names') : Mentions names' text :=
  fun word hword hscoped => hsub (h word hword hscoped)

theorem mentions_append {names : List String} {x y : String}
    (h : isClosed x.toList = true ∨ isOpen y.toList = true) :
    Mentions names (x ++ y) ↔ Mentions names x ∧ Mentions names y := by
  unfold Mentions
  rw [words_append h]
  exact List.forall_mem_append

/-- A single word mentions itself, if it has to be declared. -/
theorem IsWord.mentions_iff {names : List String} {text : String} (h : IsWord text) :
    Mentions names text ↔ (isScoped text = true → text ∈ names) := by
  unfold Mentions
  rw [h.words_eq]
  exact List.forall_mem_singleton

/-! ## Fixed parts of a text -/

/-- A text without a line break. -/
def Flat (text : String) : Prop :=
  ∀ c ∈ text.toList, c ≠ '\n'

theorem flat_append {x y : String} : Flat (x ++ y) ↔ Flat x ∧ Flat y := by
  unfold Flat
  rw [String.toList_append]
  exact List.forall_mem_append

/-- What is written without a line break. -/
def isFlat (text : List Char) : Bool :=
  text.all (· != '\n')

theorem flat_iff {text : String} : Flat text ↔ isFlat text.toList = true := by
  simp [Flat, isFlat]

/-- What stands on one line, and has no word that has to be declared but the place of a tile, if
that is in it. -/
def isFixed (place : Bool) (text : List Char) : Bool :=
  isFlat text && (runs text).filter (!isPlain ·) == if place then [['i']] else []

/-- What the words to be declared begin with, the place of a tile among them. -/
def stemLetters : List Char :=
  ['b', 'd', 'i', 'k', 'm', 'p', 't', 'u']

/-- A character of a text in which no word begins that has to be declared. -/
def isInert (c : Char) : Bool :=
  !stemLetters.contains c && c != '\n'

theorem isPlain_of_isInert {c : Char} (h : isInert c = true) (run : List Char) :
    isPlain (c :: run) = true := by
  simp only [isInert, Bool.and_eq_true, Bool.not_eq_true', List.contains_eq_mem,
    decide_eq_false_iff_not] at h
  have hletter : ∀ x ∈ stemLetters, (x == c) = false := by
    intro x hx
    rw [beq_eq_false_iff_ne]
    rintro rfl
    exact h.1 hx
  simp only [stemLetters, List.forall_mem_cons] at hletter
  have hi : c ≠ 'i' := (beq_eq_false_iff_ne.mp hletter.2.2.1).symm
  simp [isPlain, stems, List.isPrefixOf, hletter, hi]

/-- A text in which no word to be declared can begin. -/
theorem isFixed_of_isInert {text : List Char} (h : ∀ c ∈ text, isInert c = true) :
    isFixed false text = true := by
  rw [isFixed, isFlat, Bool.and_eq_true, List.all_eq_true, if_neg Bool.false_ne_true, beq_iff_eq,
    List.filter_eq_nil_iff]
  refine ⟨fun c hc => ?_, fun run hrun => ?_⟩
  · exact (Bool.and_eq_true_iff.mp (h c hc)).2
  obtain ⟨hne, hmem⟩ := of_mem_runs hrun
  cases run with
  | nil => exact absurd rfl hne
  | cons c run => simp [isPlain_of_isInert (h c (hmem c List.mem_cons_self))]

/-- A fixed part mentions nothing but the place of a tile. -/
theorem mentions_iff_of_isFixed {names : List String} {place : Bool} {text : String}
    (h : isFixed place text.toList = true) :
    Mentions names text ↔ (place = true → "i" ∈ names) := by
  rw [isFixed, Bool.and_eq_true, beq_iff_eq] at h
  have hrun : ∀ run ∈ runs text.toList, isPlain run = true ∨ place = true ∧ run = ['i'] := by
    intro run hmem
    by_cases hplain : isPlain run = true
    · exact .inl hplain
    · have hown : run ∈ (runs text.toList).filter (!isPlain ·) :=
        List.mem_filter.mpr ⟨hmem, by simpa using hplain⟩
      rw [h.2] at hown
      cases place with
      | false => simp at hown
      | true => exact .inr ⟨rfl, by simpa using hown⟩
  constructor
  · intro hmentions hplace
    have hown : ['i'] ∈ (runs text.toList).filter (!isPlain ·) := by
      rw [h.2, if_pos hplace]
      exact List.mem_singleton_self _
    refine hmentions "i" ?_ (by decide)
    exact List.mem_map.mpr ⟨['i'], (List.mem_filter.mp hown).1, rfl⟩
  · intro hi word hword hscoped
    obtain ⟨run, hmem, rfl⟩ := List.mem_map.mp hword
    rcases hrun run hmem with hplain | ⟨hplace, rfl⟩
    · rw [isScoped_eq_false hplain] at hscoped
      simp at hscoped
    · exact hi hplace

/-! ## Reading a text part by part -/

/-- A property that a text has when its parts have it, if no word goes on from one part to the next.
Fixed parts have it anyway, apart from the place of a tile. -/
structure Partwise (P : String → Prop) : Prop where
  fixed : ∀ {place : Bool} {text : String}, isFixed place text.toList = true →
    (P text ↔ (place = true → P "i"))
  append : ∀ {x y : String}, isClosed x.toList = true ∨ isOpen y.toList = true →
    (P (x ++ y) ↔ P x ∧ P y)

/-- What a text mentions is read off its parts. -/
theorem partwise_mentions (names : List String) : Partwise (Mentions names) where
  fixed h := by
    have hfixed : isFixed true "i".toList = true := by decide
    have hi : Mentions names "i" ↔ "i" ∈ names :=
      (mentions_iff_of_isFixed hfixed).trans (forall_prop_of_true rfl)
    rw [hi]
    exact mentions_iff_of_isFixed h
  append := mentions_append

/-- A word is written on one line. -/
theorem IsWord.flat {text : String} (h : IsWord text) : Flat text := by
  rintro c hc rfl
  exact absurd (h.2 _ hc) (by decide)

/-- A word is fixed if it does not begin like one that has to be declared. -/
theorem IsWord.isFixed {text : String} (h : IsWord text) (hplain : isPlain text.toList = true) :
    isFixed false text.toList = true := by
  simp [TileFusion.isFixed, flat_iff.mp h.flat, h.runs_eq, hplain]

/-- So is whether it stands on one line, and here seams do not matter. -/
theorem partwise_flat : Partwise Flat where
  fixed h := by
    rw [isFixed, Bool.and_eq_true] at h
    exact iff_of_true (flat_iff.mpr h.1) fun _ => flat_iff.mpr rfl
  append _ := flat_append

/-- A fixed part with something in front of it or behind it or not: no word goes on across a
seam. -/
def isSeam (front back place : Bool) (text : List Char) : Bool :=
  (!front || isOpen text) && (!back || isClosed text) && !text.isEmpty && isFixed place text

/-- A literal is taken apart before it is looked at. -/
theorem isSeam_ofList {front back place : Bool} {text : List Char}
    (h : isSeam front back place text = true) :
    isSeam front back place (String.ofList text).toList = true := by
  rwa [String.toList_ofList]

namespace Partwise

variable {P : String → Prop} {x lit rest : String}

theorem plain (hP : Partwise P) {text : String} (h : isFixed false text.toList = true) : P text :=
  (hP.fixed h).mpr fun hplace => absurd hplace Bool.false_ne_true

/-- A part that stands alone. -/
theorem alone (hP : Partwise P) (h : isSeam false false false lit.toList = true) : P lit := by
  simp only [isSeam, Bool.and_eq_true] at h
  exact hP.plain h.2

/-- A part that something follows. -/
theorem front (hP : Partwise P) (h : isSeam false true false lit.toList = true) :
    P (lit ++ rest) ↔ P rest := by
  simp only [isSeam, Bool.and_eq_true, Bool.not_true, Bool.false_or] at h
  rw [hP.append (.inl h.1.1.2), and_iff_right (hP.plain h.2)]

/-- A part with something in front of it. -/
theorem append_seam {place : Bool} (hP : Partwise P)
    (h : isSeam true false place lit.toList = true) :
    P (x ++ lit) ↔ P x ∧ (place = true → P "i") := by
  simp only [isSeam, Bool.and_eq_true, Bool.not_true, Bool.false_or] at h
  rw [hP.append (.inr h.1.1.1), hP.fixed h.2]

/-- A part with something on both sides. -/
theorem append_seam_append {place : Bool} (hP : Partwise P)
    (h : isSeam true true place lit.toList = true) :
    P (x ++ (lit ++ rest)) ↔ P x ∧ (place = true → P "i") ∧ P rest := by
  simp only [isSeam, Bool.and_eq_true, Bool.not_true, Bool.false_or] at h
  obtain ⟨⟨⟨hopen, hclosed⟩, hne⟩, hfixed⟩ := h
  have hopen' : isOpen (lit ++ rest).toList = true := isOpen_append (by simpa using hne) hopen
  rw [hP.append (.inr hopen'), hP.append (.inl hclosed), hP.fixed hfixed]

theorem back (hP : Partwise P) (h : isSeam true false false lit.toList = true) :
    P (x ++ lit) ↔ P x := by
  simp [hP.append_seam h]

theorem back_place (hP : Partwise P) (h : isSeam true false true lit.toList = true) :
    P (x ++ lit) ↔ P x ∧ P "i" := by
  simp [hP.append_seam h]

theorem between (hP : Partwise P) (h : isSeam true true false lit.toList = true) :
    P (x ++ (lit ++ rest)) ↔ P x ∧ P rest := by
  simp [hP.append_seam_append h]

theorem between_place (hP : Partwise P) (h : isSeam true true true lit.toList = true) :
    P (x ++ (lit ++ rest)) ↔ P x ∧ P "i" ∧ P rest := by
  simp [hP.append_seam_append h]

end Partwise

end TileFusion
