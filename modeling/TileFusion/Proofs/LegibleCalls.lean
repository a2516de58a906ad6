import TileFusion.Proofs.CallWords

/-!
# Calls on lines of their own

A reader of device code finds its blocks by the lines that hold a brace and nothing else, and tells
how deep a line stands by the blanks in front of it. Both work only when every other line is
`Legible`: it has no line break inside, and it begins with neither a blank nor a brace.

> `Call.legible_lines`: the lines of a call are legible on every platform.

Braces do occur in calls, in the midst of a line.
-/

namespace TileFusion

/-- A text that can be told from the blanks in front of it, from a brace, and from the next line. -/
structure Legible (text : String) : Prop where
  begins : Begins text
  flat : Flat text

/-- The lines of a call are legible on every platform. -/
theorem Call.legible_lines (platform : Platform) (call : Call) :
    ∀ line ∈ call.lines platform, Legible line := by
  have hnames : ∀ name ∈ call.names, Flat name := fun name hname =>
    (call.isWord_names name hname).flat
  intro line hline
  obtain ⟨hbegins, hflat⟩ := call.lines_of_parts partwise_flat platform hnames line hline
  exact ⟨hbegins, hflat⟩

/-! ## Other lines -/

theorem flat_loopName : ∀ name ∈ loopNames, Flat name :=
  fun name hname => (isWord_of_mem_loopNames name hname).flat

/-- What begins with a fixed part only has to be written on one line. -/
theorem legible_front {lit rest : String} (h : isBeginning lit.toList = true) :
    Legible (lit ++ rest) ↔ Flat (lit ++ rest) :=
  ⟨Legible.flat, fun hflat => ⟨begins_front h, hflat⟩⟩

theorem legible_comment {text : String} (h : Flat text) : Legible s!"// {text}" :=
  (legible_front (by decide)).mpr (flat_append.mpr ⟨flat_iff.mpr rfl, h⟩)

/-- A literal is taken apart before it is looked at. -/
theorem isFlat_ofList {text : List Char} (h : isFlat text = true) :
    isFlat (String.ofList text).toList = true := by
  rwa [String.toList_ofList]

theorem flat_literal {lit : String} (h : isFlat lit.toList = true) : Flat lit := flat_iff.mpr h

theorem legible_loopHead {counter : String} (h : Flat counter) (count : Nat) :
    Legible (loopHead counter count) := by
  unfold loopHead
  simp (disch := first
      | with_reducible apply isBeginning_ofList; decide
      | with_reducible apply isFlat_ofList; decide) only
    [toString_string, String.append_assoc, legible_front, flat_append, flat_literal,
    partwise_flat.number, h, and_self]

/-- The place of a tile. -/
theorem legible_tile {value : String} (h : Flat value) :
    Legible s!"const uint32_t tile_idx = {value};" := by
  simp (disch := first
      | with_reducible apply isBeginning_ofList; decide
      | with_reducible apply isFlat_ofList; decide) only
    [toString_string, String.append_assoc, legible_front, flat_append, flat_literal, h, and_self]

/-- The tiles in front of a batch. -/
theorem legible_offset (value : Nat) : Legible s!"const uint32_t batch_offset = {value};" := by
  simp (disch := first
      | with_reducible apply isBeginning_ofList; decide
      | with_reducible apply isFlat_ofList; decide) only
    [toString_string, String.append_assoc, legible_front, flat_append, flat_literal,
    partwise_flat.number, and_self]

/-- A declaration is a legible line if what it declares has no line break in its name. -/
theorem Declaration.legible_text {d : Declaration} (h : Flat d.name) : Legible d.text := by
  unfold Declaration.text
  cases d
  case' buffer name address tileBytes unused => cases unused
  case' format name value unused => cases unused
  all_goals
    unfold Declaration.name at h
    dsimp only at h ⊢
  case' buffer.false | buffer.true | format.false | format.true => unfold unusedMark
  all_goals
    simp (disch := first
        | with_reducible apply isBeginning_ofList; decide
        | with_reducible apply isFlat_ofList; decide) only
      [if_true, Bool.false_eq_true, if_false, toString_string, String.append_assoc,
      String.empty_append, legible_front, flat_append, flat_literal, partwise_flat.number,
      partwise_flat.hexText, partwise_flat.formatValue, partwise_flat.destSync, h, and_self]

end TileFusion
