import TileFusion.Proofs.CallWords
import TileFusion.Proofs.MemoryLayout

/-!
# Scopes of a thread

All stages of a thread declare their identifiers in one function body, and open blocks in it for
batches, tiles and the inner dimension. This file reads the lines of such a body the way a compiler
goes through its names. What a line declares and what it uses are taken from its text: calls are
spelled out long before they are put into loops, so nothing else says that the two agree.

> `Scope.read`: one line, with what is in sight in front of it and behind it;
> `Stmt.Scoped`: the same question asked of a statement, before it is written out;
> `readAll_linesOf`: a statement that is scoped is read, and leaves what is in sight as it was;
> `build_well_scoped`: every thread of every pipeline that is built can be read to its end.
-/

namespace TileFusion

/-! ## Reading lines -/

/-- What a line says that is no call. Behind the identifier of a loop or of a constant stand the
words of the bounds or of the value. -/
inductive Heading where
  | remark
  | counter (name : String) (rest : List String)
  | constant (name : String) (rest : List String)
  deriving DecidableEq, Repr

/-- Keyword, type and identifier are the first words. -/
def Heading.ofWords : List String → Option Heading
  | keyword :: _ :: name :: rest =>
    if keyword = "for" then some (.counter name rest)
    else if keyword = "const" ∨ keyword = "constexpr" then some (.constant name rest)
    else none
  | _ => none

/-- Reads a line; the mark of what may stay unused is passed over. -/
def heading (text : String) : Option Heading :=
  if text.toList.take 2 = ['/', '/'] then some .remark
  else Heading.ofWords ((words text).dropWhile (· = "UNUSED"))

/-- The identifiers in sight, block by block. -/
structure Scope where
  /-- Those of the block that is being read. -/
  inner : List String
  /-- Those of the blocks around it. -/
  outer : List (List String)
  /-- The variable of a loop whose block has not begun. -/
  counter : Option String
  deriving DecidableEq, Repr

namespace Scope

/-- Everything in sight. -/
def visible (s : Scope) : List String :=
  s.counter.toList ++ s.inner ++ s.outer.flatten

/-- Of the words that have to be declared, all are in sight. -/
def Sees (s : Scope) (ws : List String) : Prop :=
  ∀ word ∈ ws, isScoped word = true → word ∈ s.visible

instance (s : Scope) (ws : List String) : Decidable (s.Sees ws) :=
  inferInstanceAs (Decidable (∀ word ∈ ws, isScoped word = true → word ∈ s.visible))

/-- A constant must be new in its block, and its value is read before it is in sight. -/
def note (s : Scope) : Heading → Option Scope
  | .remark => some s
  | .counter name rest =>
    let begun := { s with counter := some name }
    if begun.Sees rest then some begun else none
  | .constant name rest =>
    if name ∉ s.inner ∧ s.Sees rest then some { s with inner := name :: s.inner } else none

/-- Reads one line. Behind the head of a loop there has to be its block. -/
def read (s : Scope) (line : Line) : Option Scope :=
  match line, s.counter with
  | .opening _, counter => some ⟨counter.toList, s.inner :: s.outer, none⟩
  | _, some _ => none
  | .closing _, none =>
    match s.outer with
    | [] => none
    | inner :: outer => some ⟨inner, outer, none⟩
  | .blank, none => some s
  | .call _ text, none => if s.Sees (words text) then some s else none
  | .code _ text, none => (heading text).bind s.note

/-- Reads lines in a row. -/
def readAll (s : Scope) (lines : List Line) : Option Scope :=
  lines.foldlM read s

end Scope

/-- The lines can be read to their end: blocks match, no identifier is declared twice in a block, and
each is declared before it is used, in the same block or in one around it. -/
def WellScoped (lines : List Line) : Prop :=
  ∃ inner, Scope.readAll ⟨[], [], none⟩ lines = some ⟨inner, [], none⟩

/-- A call in front of the loop that it belongs into. -/
example : Scope.readAll ⟨["buffer_A0"], [], none⟩ [.call 0 "f(buffer_A0[i]);"] = none := by
  decide +kernel

section Reading

variable {s s' : Scope} {inner : List String} {outer : List (List String)} {name : String}

theorem readAll_nil : s.readAll [] = some s := rfl

theorem readAll_append {xs ys : List Line} (h : s.readAll xs = some s') :
    s.readAll (xs ++ ys) = s'.readAll ys := by
  unfold Scope.readAll at h ⊢
  rw [List.foldlM_append, h]
  rfl

theorem readAll_cons {line : Line} {lines : List Line} (h : s.read line = some s') :
    s.readAll (line :: lines) = s'.readAll lines := by
  unfold Scope.readAll
  rw [List.foldlM_cons, h]
  rfl

theorem readAll_calls {texts : List String} (depth : Nat)
    (h : ∀ text ∈ texts, Mentions (inner ++ outer.flatten) text) :
    Scope.readAll ⟨inner, outer, none⟩ (texts.map (.call depth)) = some ⟨inner, outer, none⟩ := by
  induction texts with
  | nil => rfl
  | cons text texts ih =>
    rw [List.forall_mem_cons] at h
    have hread : Scope.read ⟨inner, outer, none⟩ (.call depth text) = some ⟨inner, outer, none⟩ :=
      if_pos h.1
    rw [List.map_cons, readAll_cons hread, ih h.2]

/-! ## Heads and declarations -/

theorem words_declared {front rest : String} (hfront : isClosed front.toList = true)
    (hname : IsWord name) (hrest : isOpen rest.toList = true) :
    words (front ++ (name ++ rest)) = words front ++ name :: words rest := by
  rw [words_append (.inl hfront), words_append (.inr hrest), hname.words_eq]
  rfl

/-- What stands in front of an identifier that is declared: the keyword and the type. -/
def isFront (front keyword : String) : Bool :=
  isClosed front.toList && front.toList.head?.any (· != '/') &&
    ((words front).dropWhile (· = "UNUSED")).head? == some keyword &&
      ((words front).dropWhile (· = "UNUSED")).length == 2

theorem heading_declared {front keyword rest : String} (hfront : isFront front keyword = true)
    (hname : IsWord name) (hrest : isOpen rest.toList = true) :
    ∃ kind, heading (front ++ (name ++ rest)) =
      Heading.ofWords (keyword :: kind :: name :: words rest) := by
  simp only [isFront, Bool.and_eq_true, beq_iff_eq, List.length_eq_two] at hfront
  obtain ⟨⟨⟨hclosed, hstart⟩, hkeyword⟩, first, kind, hwords⟩ := hfront
  obtain rfl : first = keyword := by simpa [hwords] using hkeyword
  refine ⟨kind, ?_⟩
  have hcode : (front ++ (name ++ rest)).toList.take 2 ≠ ['/', '/'] := by
    rw [String.toList_append]
    cases hchars : front.toList with
    | nil => simp [hchars] at hstart
    | cons c cs =>
      have hslash : c ≠ '/' := by simpa [hchars] using hstart
      intro htake
      exact hslash (List.cons.inj htake).1
  rw [heading, if_neg hcode, words_declared hclosed hname hrest, List.dropWhile_append, hwords]
  rfl

/-- What a line declares as a constant. -/
theorem read_constant {front rest : String} (keyword : String) (depth : Nat)
    (hfront : isFront front keyword = true) (hkeyword : keyword ∈ ["const", "constexpr"])
    (hname : IsWord name) (hnew : name ∉ inner) (hrest : isOpen rest.toList = true)
    (hvalue : Mentions (inner ++ outer.flatten) rest) :
    Scope.read ⟨inner, outer, none⟩ (.code depth (front ++ (name ++ rest))) =
      some ⟨name :: inner, outer, none⟩ := by
  obtain ⟨kind, hheading⟩ := heading_declared hfront hname hrest
  have hwords : Heading.ofWords (keyword :: kind :: name :: words rest) =
      some (.constant name (words rest)) := by
    simp only [List.mem_cons, List.not_mem_nil, or_false] at hkeyword
    rcases hkeyword with rfl | rfl <;> simp [Heading.ofWords]
  show (heading _).bind _ = _
  rw [hheading, hwords, Option.bind_some]
  exact if_pos ⟨hnew, hvalue⟩

/-- A constant with the value behind a sign of equality. -/
theorem read_value {front value : String} (keyword : String) (depth : Nat)
    (hfront : isFront front keyword = true) (hkeyword : keyword ∈ ["const", "constexpr"])
    (hname : IsWord name) (hnew : name ∉ inner) (hvalue : Mentions (inner ++ outer.flatten) value) :
    Scope.read ⟨inner, outer, none⟩ (.code depth (front ++ (name ++ (" = " ++ (value ++ ";"))))) =
      some ⟨name :: inner, outer, none⟩ := by
  refine read_constant keyword depth hfront hkeyword hname hnew
    (isOpen_append (by decide) (by decide)) ?_
  have hparts := partwise_mentions (inner ++ outer.flatten)
  simpa (disch := with_reducible apply isSeam_ofList; decide) only [hparts.front, hparts.back]
    using hvalue

/-- A number that is declared for a block. -/
theorem read_local {lit value : String} (depth : Nat)
    (hlit : lit = "const uint32_t " ++ (name ++ " = ")) (hname : IsWord name) (hnew : name ∉ inner)
    (hvalue : Mentions (inner ++ outer.flatten) value) :
    Scope.read ⟨inner, outer, none⟩ (.code depth (lit ++ value ++ ";")) =
      some ⟨name :: inner, outer, none⟩ := by
  have htext : lit ++ value ++ ";" = "const uint32_t " ++ (name ++ (" = " ++ (value ++ ";"))) := by
    simp only [hlit, String.append_assoc]
  rw [htext]
  exact read_value "const" depth (by decide +kernel) (by simp) hname hnew hvalue

/-- A loop is read by reading its block, which begins with the variable of the loop. -/
theorem readAll_loop {own : List String} {body : List Line} (depth count : Nat)
    (hname : IsWord name)
    (hbody : Scope.readAll ⟨[name], inner :: outer, none⟩ body =
      some ⟨own, inner :: outer, none⟩) :
    Scope.readAll ⟨inner, outer, none⟩ (block depth (loopHead name count) body) =
      some ⟨inner, outer, none⟩ := by
  have htext : loopHead name count = "for (uint32_t " ++ (name ++ (" = 0; " ++ (name ++
      (" < " ++ (toString count ++ ("; ++" ++ (name ++ ")"))))))) := by
    unfold loopHead
    simp only [toString_string, String.append_assoc]
  have hopen : isOpen (" = 0; " ++ (name ++ (" < " ++ (toString count ++ ("; ++" ++
      (name ++ ")")))))).toList = true := isOpen_append (by decide) (by decide)
  have hbounds : Mentions (name :: inner ++ outer.flatten) (" = 0; " ++ (name ++ (" < " ++
      (toString count ++ ("; ++" ++ (name ++ ")")))))) := by
    have hparts := partwise_mentions (name :: inner ++ outer.flatten)
    simp (disch := with_reducible apply isSeam_ofList; decide) only [hparts.front, hparts.between,
      hparts.back, hparts.number, hname.mentions_iff]
    simp
  have hfront : isFront "for (uint32_t " "for" = true := by decide +kernel
  obtain ⟨kind, hheading⟩ := heading_declared hfront hname hopen
  have hhead : Scope.read ⟨inner, outer, none⟩ (.code depth (loopHead name count)) =
      some ⟨inner, outer, some name⟩ := by
    show (heading _).bind _ = _
    rw [htext, hheading, Heading.ofWords, if_pos rfl, Option.bind_some]
    exact if_pos hbounds
  have hopening : Scope.read ⟨inner, outer, some name⟩ (.opening depth) =
      some ⟨[name], inner :: outer, none⟩ := rfl
  rw [block, List.cons_append, List.cons_append, readAll_cons hhead, readAll_cons hopening,
    readAll_append hbody]
  rfl

end Reading

/-! ## Declarations -/

/-- A declaration is read as a constant of its name. -/
theorem Declaration.read_text (d : Declaration) {inner : List String} {outer : List (List String)}
    (depth : Nat) (hname : IsWord d.name) (hnew : d.name ∉ inner) :
    Scope.read ⟨inner, outer, none⟩ (.code depth d.text) =
      some ⟨d.name :: inner, outer, none⟩ := by
  have hparts := partwise_mentions (inner ++ outer.flatten)
  cases d with
  | buffer name address tileBytes unused =>
    have htext : (Declaration.buffer name address tileBytes unused).text =
        (unusedMark unused ++ "const Operand ") ++ (name ++ ("(" ++ (hexText address ++
          (", " ++ (toString tileBytes ++ ");"))))) := by
      unfold Declaration.text
      simp only [toString_string, String.append_assoc]
    rw [htext]
    refine read_constant "const" depth ?_ (by simp) hname hnew
      (isOpen_append (by decide) (by decide)) ?_
    · cases unused <;> decide +kernel
    · simp (disch := with_reducible apply isSeam_ofList; decide) only [hparts.front,
        hparts.between, hparts.back, hparts.number, hparts.hexText, and_true]
  | format name value unused =>
    have htext : (Declaration.format name value unused).text =
        (unusedMark unused ++ "const uint32_t ") ++
          (name ++ (" = " ++ (formatValue value ++ ";"))) := by
      unfold Declaration.text
      simp only [toString_string, String.append_assoc]
    rw [htext]
    refine read_value "const" depth ?_ (by simp) hname hnew (hparts.formatValue value)
    cases unused <;> decide +kernel
  | destSync name sync =>
    have htext : (Declaration.destSync name sync).text =
        "constexpr DstSync " ++ (name ++ (" = " ++ (sync.code ++ ";"))) := by
      unfold Declaration.text
      simp only [toString_string, String.append_assoc]
    rw [htext]
    exact read_value "constexpr" depth (by decide +kernel) (by simp) hname hnew
      (hparts.destSync sync)

/-- New declarations in a row are added to their block. -/
theorem readAll_declarations (platform : Platform) (t : Thread) (depth : Nat) (tiles : TileScope)
    (outer : List (List String)) (ds : List Declaration) {inner : List String}
    (hwords : ∀ d ∈ ds, IsWord d.name) (hnew : ((ds.map (·.name)).reverse ++ inner).Nodup) :
    Scope.readAll ⟨inner, outer, none⟩ (linesOf platform t depth tiles (ds.map .declare)) =
      some ⟨(ds.map (·.name)).reverse ++ inner, outer, none⟩ := by
  induction ds generalizing inner with
  | nil => rfl
  | cons d ds ih =>
    rw [List.forall_mem_cons] at hwords
    have hnames : ((d :: ds).map (·.name)).reverse ++ inner =
        (ds.map (·.name)).reverse ++ d.name :: inner := by
      simp
    rw [hnames] at hnew ⊢
    have hown : d.name ∉ inner := (List.nodup_cons.mp hnew.of_append_right).1
    rw [List.map_cons, linesOf, Stmt.lines, List.singleton_append,
      readAll_cons (d.read_text depth hwords.1 hown), ih hwords.2 hnew]

/-! ## Statements -/

/-- What the loop over the tiles of a batch declares; only the math thread never asks where a tile is
in the output. -/
def tileNames (t : Thread) : List String :=
  if t = .math then ["i"] else ["tile_idx", "i"]

mutual

/-- The statement declares nothing for those behind it, and its calls use only what is known or what
the loops around them bind. -/
def Stmt.Scoped (t : Thread) (known : List String) : Stmt → Prop
  | .comment _ | .blank => True
  | .declare _ => False
  | .call call => ∀ name ∈ call.names, name ∈ known
  | .batched _ body => ScopedAll t known body
  | .forEachTile body => ScopedAll t (tileNames t ++ known) body
  | .loop counter _ body => IsWord counter ∧ ScopedAll t (counter :: known) body

def ScopedAll (t : Thread) (known : List String) : List Stmt → Prop
  | [] => True
  | stmt :: rest => stmt.Scoped t known ∧ ScopedAll t known rest

end

attribute [simp] Stmt.Scoped ScopedAll

@[simp] theorem scopedAll_append {t : Thread} {known : List String} (xs ys : List Stmt) :
    ScopedAll t known (xs ++ ys) ↔ ScopedAll t known xs ∧ ScopedAll t known ys := by
  induction xs with
  | nil => simp
  | cons x xs ih => simp [ih, and_assoc]

theorem scopedAll_flatMap {α : Type} {t : Thread} {known : List String} {f : α → List Stmt}
    {xs : List α} (h : ∀ x ∈ xs, ScopedAll t known (f x)) : ScopedAll t known (xs.flatMap f) := by
  induction xs with
  | nil => trivial
  | cons x xs ih =>
    rw [List.forall_mem_cons] at h
    rw [List.flatMap_cons, scopedAll_append]
    exact ⟨h.1, ih h.2⟩

/-- The place of a tile is written with the variables of the loops around it. -/
theorem Index.mentions_of_variables {known : List String} {x : Index}
    (hloops : ∀ name ∈ x.variables, name ∈ loopNames) (hknown : ∀ name ∈ x.variables, name ∈ known) :
    Mentions known x.text := by
  rw [(partwise_mentions known).index]
  intro name hname
  exact (isWord_of_mem_loopNames name (hloops name hname)).mentions_iff.mpr fun _ =>
    hknown name hname

/-- What statements in a block rely on: what is known is in sight, and so is what the place of a tile
is written with, once there is a loop over the tiles. -/
structure Fits (known : List String) (tiles : TileScope) (inner : List String)
    (outer : List (List String)) : Prop where
  known : known ⊆ inner ++ outer.flatten
  index : Mentions ("i" :: (inner ++ outer.flatten)) tiles.index.text

section Blocks

variable {known inner : List String} {outer : List (List String)} {tiles : TileScope}

theorem mentions_place : Mentions ("i" :: known) Index.place.text :=
  Index.mentions_of_variables (by decide) (by simp [Index.variables, Index.place])

/-- A block with names of its own. -/
theorem Fits.enter (h : Fits known tiles inner outer) (names : List String) :
    Fits (names ++ known) tiles names (inner :: outer) := by
  refine ⟨?_, ?_⟩
  · rw [List.append_subset]
    exact ⟨List.subset_append_left .., List.Subset.trans h.known (List.subset_append_right ..)⟩
  · exact h.index.mono (List.cons_subset_cons _ (List.subset_append_right ..))

/-- The block of a batch, which says anew where its tiles are. -/
theorem Fits.batch (h : Fits known tiles inner outer) {names : List String} {tiles' : TileScope}
    (hloops : ∀ name ∈ tiles'.index.variables, name ∈ loopNames)
    (hnames : ∀ name ∈ tiles'.index.variables, name ∈ "i" :: names) :
    Fits known tiles' names (inner :: outer) := by
  refine ⟨List.Subset.trans h.known (List.subset_append_right ..), ?_⟩
  refine Index.mentions_of_variables hloops fun name hname => ?_
  rw [← List.cons_append]
  exact List.mem_append_left _ (hnames name hname)

end Blocks

theorem read_offset (depth n : Nat) (outer : List (List String)) :
    Scope.read ⟨[], outer, none⟩ (.code depth s!"const uint32_t batch_offset = {n};") =
      some ⟨["batch_offset"], outer, none⟩ :=
  read_local depth rfl (isWord_of_mem_loopNames _ (by decide)) (by simp)
    ((partwise_mentions _).number n)

theorem read_tile (depth : Nat) (x : Index) {inner : List String} {outer : List (List String)}
    (h : Mentions ("i" :: (inner ++ outer.flatten)) x.text) :
    Scope.read ⟨["i"], inner :: outer, none⟩ (.code depth s!"const uint32_t tile_idx = {x.text};") =
      some ⟨["tile_idx", "i"], inner :: outer, none⟩ :=
  read_local depth rfl (isWord_of_mem_loopNames _ (by decide)) (by decide) h

section Run

variable {platform : Platform} {t : Thread}

/-- The rest of the tiles stands in a block of its own. -/
theorem readAll_rest {inner own : List String} {outer : List (List String)} {body : List Line}
    (depth n : Nat)
    (hbody : Scope.readAll ⟨["batch_offset"], inner :: outer, none⟩ body =
      some ⟨own, inner :: outer, none⟩) :
    Scope.readAll ⟨inner, outer, none⟩
        ([.opening depth, .code (depth + 1) s!"const uint32_t batch_offset = {n};"] ++ body ++
          [.closing depth]) =
      some ⟨inner, outer, none⟩ := by
  have hopening : Scope.read ⟨inner, outer, none⟩ (.opening depth) =
      some ⟨[], inner :: outer, none⟩ := rfl
  rw [List.append_assoc, List.cons_append, List.cons_append, List.nil_append,
    readAll_cons hopening, readAll_cons (read_offset ..), readAll_append hbody]
  rfl

theorem read_comment (depth : Nat) (text : String) {inner : List String}
    {outer : List (List String)} :
    Scope.read ⟨inner, outer, none⟩ (.code depth s!"// {text}") = some ⟨inner, outer, none⟩ := by
  have hremark : heading s!"// {text}" = some .remark := by
    refine if_pos ?_
    rw [toString_string, String.toList_append]
    rfl
  show (heading _).bind _ = _
  rw [hremark]
  rfl

mutual

theorem Stmt.readAll_lines : ∀ (stmt : Stmt) {known inner : List String}
    {outer : List (List String)} {depth : Nat} {tiles : TileScope}, stmt.Scoped t known →
      Fits known tiles inner outer →
      Scope.readAll ⟨inner, outer, none⟩ (stmt.lines platform t depth tiles) =
        some ⟨inner, outer, none⟩
  | .comment text, _, _, _, _, _, _, _ => by
    rw [Stmt.lines, readAll_cons (read_comment ..), readAll_nil]
  | .blank, _, _, _, _, _, _, _ => rfl
  | .declare _, _, _, _, _, _, h, _ => h.elim
  | .call call, _, _, _, _, _, h, hfits => by
    rw [Stmt.lines]
    refine readAll_calls _ fun text htext => ?_
    exact (call.mentions_lines platform text htext).mono fun name hname => hfits.known (h name hname)
  | .batched shape body, _, inner, outer, depth, _, h, hfits => by
    have hfull : Scope.readAll ⟨["batch"], inner :: outer, none⟩
        (linesOf platform t (depth + 1) (.full shape) body) =
          some ⟨["batch"], inner :: outer, none⟩ :=
      readAll_linesOf body h (hfits.batch
        (by simp [TileScope.full, Index.variables, Index.batch, Index.place, loopNames])
        (by simp [TileScope.full, Index.variables, Index.batch, Index.place]))
    have hrest : Scope.readAll ⟨["batch_offset"], inner :: outer, none⟩
        (linesOf platform t (depth + 1) (.rest shape) body) =
          some ⟨["batch_offset"], inner :: outer, none⟩ :=
      readAll_linesOf body h (hfits.batch
        (by simp [TileScope.rest, Index.variables, Index.batchOffset, Index.place, loopNames])
        (by simp [TileScope.rest, Index.variables, Index.batchOffset, Index.place]))
    have honly : Scope.readAll ⟨inner, outer, none⟩
        (linesOf platform t depth (.only shape) body) = some ⟨inner, outer, none⟩ :=
      readAll_linesOf body h ⟨hfits.known, mentions_place⟩
    -- either part can be missing, and the second has two forms
    have hfirst : Scope.readAll ⟨inner, outer, none⟩ (if shape.fullBatches = 0 then []
        else block depth (loopHead "batch" shape.fullBatches)
          (linesOf platform t (depth + 1) (.full shape) body)) = some ⟨inner, outer, none⟩ := by
      split
      next => rfl
      next => exact readAll_loop depth _ (isWord_of_mem_loopNames _ (by decide)) hfull
    rw [Stmt.lines, readAll_append hfirst]
    split
    next => rfl
    next =>
      split
      next => exact honly
      next => exact readAll_rest depth shape.offset hrest
  | .forEachTile body, _, inner, outer, depth, tiles, h, hfits => by
    have hbody : Scope.readAll ⟨tileNames t, inner :: outer, none⟩
        (linesOf platform t (depth + 1) tiles body) =
          some ⟨tileNames t, inner :: outer, none⟩ :=
      readAll_linesOf body h (hfits.enter (tileNames t))
    have hi : IsWord "i" := isWord_of_mem_loopNames _ (by decide)
    rw [Stmt.lines]
    by_cases hthread : t = .math
    · rw [if_pos (by simpa using hthread), List.nil_append]
      rw [tileNames, if_pos hthread] at hbody
      exact readAll_loop depth _ hi hbody
    · rw [if_neg (by simpa using hthread), List.singleton_append]
      rw [tileNames, if_neg hthread, ← readAll_cons (read_tile (depth + 1) _ hfits.index)] at hbody
      exact readAll_loop depth _ hi hbody
  | .loop counter count body, _, _, _, depth, _, h, hfits => by
    rw [Stmt.lines]
    exact readAll_loop depth count h.1 (readAll_linesOf body h.2 (hfits.enter [counter]))

theorem readAll_linesOf : ∀ (body : List Stmt) {known inner : List String}
    {outer : List (List String)} {depth : Nat} {tiles : TileScope}, ScopedAll t known body →
      Fits known tiles inner outer →
      Scope.readAll ⟨inner, outer, none⟩ (linesOf platform t depth tiles body) =
        some ⟨inner, outer, none⟩
  | [], _, _, _, _, _, _, _ => rfl
  | stmt :: rest, _, _, _, _, _, h, hfits => by
    rw [linesOf, readAll_append (stmt.readAll_lines h.1 hfits)]
    exact readAll_linesOf rest h.2 hfits

end

end Run

/-! ## Sections -/

namespace StageView

/-- What the work of a stage relies on in a thread. -/
def declaredNames (v : StageView) (t : Thread) : List String :=
  (v.declarations t).map (·.name)

theorem isWord_name (v : StageView) (t : Thread) : ∀ d ∈ v.declarations t, IsWord d.name := by
  have hlabels : ∀ label ∈ StageNames.labels t, label ∈ stageLabels := by
    cases t <;> decide
  intro d hd
  have hname : d.name ∈ (StageNames.labels t).map (StageNames.numbered · v.index) := by
    rw [← v.name_declarations]
    exact List.mem_map_of_mem hd
  obtain ⟨label, hlabel, hname⟩ := List.mem_map.mp hname
  rw [← hname]
  exact isWord_numbered (isWordChar_of_mem_stageLabels label (hlabels label hlabel)) v.index

theorem scoped_nonlinear (v : StageView) (unit : Nonlinear) :
    ScopedAll .math (v.declaredNames .math) (v.nonlinearSection unit).body := by
  unfold nonlinearSection
  cases unit <;> simp [Call.names, declaredNames, declarations, Declaration.name, tileNames]

theorem scoped_arithmetic (v : StageView) :
    ScopedAll .math (v.declaredNames .math) v.arithmeticSection.body := by
  have hkt : IsWord "kt" := isWord_of_mem_loopNames _ (by decide)
  unfold arithmeticSection
  cases ha : v.stage.spec.arithmetic <;>
    simp [ha, Call.names, declaredNames, declarations, Declaration.name, tileNames, hkt]

theorem scoped_unpacking (v : StageView) :
    (∀ name ∈ v.unpacking.init.names, name ∈ v.declaredNames .unpack) ∧
      v.unpacking.perTile.Scoped .unpack (tileNames .unpack ++ v.declaredNames .unpack) := by
  have hkt : IsWord "kt" := isWord_of_mem_loopNames _ (by decide)
  obtain ⟨-, hinit, hstmt⟩ | ⟨-, pool, dim, -, hinit, hstmt⟩ | ⟨-, hinit, hstmt⟩ |
    ⟨-, -, hinit, hstmt⟩ | ⟨-, -, hinit, hstmt⟩ := v.unpacking_cases <;>
    simp [hinit, hstmt, Call.names, declaredNames, declarations, Declaration.name, tileNames, hkt]

/-- A section declares the identifiers of its stage, and then works with nothing else. -/
theorem exists_work (v : StageView) (t : Thread) :
    ∃ text work,
      (v.contribution t).body = .comment text :: ((v.declarations t).map .declare ++ work) ∧
        ScopedAll t (v.declaredNames t) work := by
  cases t with
  | unpack =>
    obtain ⟨hinit, htile⟩ := v.scoped_unpacking
    have hsetup : ∀ name ∈ (Call.unpackConfigure v.unpackSetup).names,
        name ∈ v.declaredNames .unpack := by
      simp [Call.names, unpackSetup, declaredNames, declarations, Declaration.name]
    have hwait : Call.waitForPack.names = [] := rfl
    refine ⟨_, _, rfl, ?_, ?_⟩
    · split <;> exact hsetup
    · by_cases hi : v.index = 0 <;> simpa [hi, htile, hwait] using hinit
  | math =>
    refine ⟨_, _, rfl, ?_⟩
    have hunits : ScopedAll .math (v.declaredNames .math)
        ((v.stage.spec.nonlinear.map v.nonlinearSection).flatMap (·.body)) := by
      refine scopedAll_flatMap fun x hx => ?_
      obtain ⟨unit, -, rfl⟩ := List.mem_map.mp hx
      exact v.scoped_nonlinear unit
    have hformat : ∀ name ∈ (Call.mathConfigure v.index v.stage.wideDest).names,
        name ∈ v.declaredNames .math := by
      simp [Call.names, declaredNames, declarations, Declaration.name]
    have hsync : ∀ name ∈ (Call.waitForDest v.index).names, name ∈ v.declaredNames .math := by
      simp [Call.names, declaredNames, declarations, Declaration.name]
    refine ⟨?_, hsync, ?_, trivial, trivial⟩
    · split <;> exact hformat
    · show ScopedAll .math (v.declaredNames .math) _
      simp only [scopedAll_append]
      exact ⟨⟨⟨⟨hsync, trivial⟩, v.scoped_arithmetic⟩, hunits⟩, hsync, trivial⟩
  | pack =>
    refine ⟨_, _, rfl, ?_⟩
    cases v.stage.spec.arithmetic <;> by_cases hi : v.index = 0 <;>
      by_cases hl : v.isLast = true <;>
      simp [hi, hl, Call.names, declaredNames, declarations, Declaration.name, tileNames]

end StageView

section Body

variable {t : Thread}

/-- Reading a section adds the identifiers of its stage. -/
theorem StageView.readAll_contribution (v : StageView) (platform : Platform) {inner : List String}
    (hnew : ((v.declaredNames t).reverse ++ inner).Nodup) :
    Scope.readAll ⟨inner, [], none⟩ (linesOf platform t 0 .single (v.contribution t).body) =
      some ⟨(v.declaredNames t).reverse ++ inner, [], none⟩ := by
  obtain ⟨text, work, hbody, hwork⟩ := v.exists_work t
  have hfits : Fits (v.declaredNames t) .single ((v.declaredNames t).reverse ++ inner) [] := by
    refine ⟨fun name hname => ?_, (partwise_mentions _).number 0⟩
    simpa using .inl hname
  rw [hbody, linesOf, Stmt.lines, List.singleton_append, readAll_cons (read_comment ..),
    linesOf_append, readAll_append
      (readAll_declarations platform t 0 .single [] _ (v.isWord_name t) hnew)]
  exact readAll_linesOf work hwork hfits

/-- The sections of a thread are read one after the other in one block. -/
theorem readAll_sections (platform : Platform) (views : List StageView) {inner : List String}
    (hnew : ((views.flatMap (·.declaredNames t)).reverse ++ inner).Nodup) :
    Scope.readAll ⟨inner, [], none⟩
        (linesOf platform t 0 .single (views.flatMap fun v => (v.contribution t).body)) =
      some ⟨(views.flatMap (·.declaredNames t)).reverse ++ inner, [], none⟩ := by
  induction views generalizing inner with
  | nil => rfl
  | cons v views ih =>
    have hnames : ((v :: views).flatMap (·.declaredNames t)).reverse ++ inner =
        (views.flatMap (·.declaredNames t)).reverse ++ ((v.declaredNames t).reverse ++ inner) := by
      simp
    rw [hnames] at hnew ⊢
    rw [List.flatMap_cons, linesOf_append,
      readAll_append (v.readAll_contribution platform hnew.of_append_right), ih hnew]

end Body

/-! ## Main result -/

/-- **The kernel of a built pipeline is well scoped**, on every platform and in every thread: the
lines are those that `bodyText` puts together. The stages of a thread share one block, in which
their identifiers differ. -/
theorem build_well_scoped {r : Registry} {specs : List StageSpec} {settings : Settings}
    {p : Pipeline} (hp : (Pipeline.build r specs settings).value = .ok p) :
    (∀ platform t, WellScoped (linesOf platform t 0 .single (p.lower.thread t).body)) ∧
      (p.stages.flatMap fun s => StageNames.all s.index).Nodup := by
  have hindex := (ordered_of_build hp).nodup_index
  refine ⟨?_, ?_⟩
  · intro platform t
    have hnames : p.views.flatMap (StageView.declaredNames · t) =
        p.views.flatMap fun v => (StageNames.labels t).map (StageNames.numbered · v.index) :=
      List.flatMap_congr fun v _ => v.name_declarations t
    have hnew : ((p.views.flatMap (StageView.declaredNames · t)).reverse ++ []).Nodup := by
      rw [List.append_nil, List.nodup_reverse, hnames]
      exact nodup_numbered (StageNames.isLabel_of_mem_labels t) (StageNames.nodup_labels t) hindex
    rw [p.body_thread]
    exact ⟨_, readAll_sections platform p.views hnew⟩
  · have hlabel : ∀ label ∈ allLabels, StageNames.isLabel label = true := by decide
    have hviews := nodup_numbered hlabel (by decide) hindex
    rwa [Pipeline.views, List.flatMap_map] at hviews

/-- Four tiles in batches of three, over two stages. -/
theorem build_well_scoped_crowded :
    ∃ p, (Pipeline.build crowdedRegistry fusedSpecs fusedSettings).value = .ok p ∧
      ∀ platform t, WellScoped (linesOf platform t 0 .single (p.lower.thread t).body) := by
  obtain ⟨p, hp⟩ := exists_build_crowded
  exact ⟨p, hp, (build_well_scoped hp).1⟩

end TileFusion
