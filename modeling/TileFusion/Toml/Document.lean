import TileFusion.Toml.Number

/-!
# TOML documents

Values nest through arrays and tables between braces, up to the nesting limit, so a value is read by
recursion on the depth that is left. A document is read into its lines first, and the lines are then
put together into one table.
-/

namespace TileFusion.Toml

/-- Reads a value that is neither an array nor a table. -/
def scalar (cs : List Char) : Option (Value × List Char) :=
  match cs with
  | [] => none
  | c :: _ =>
    if c == '"' || c == '\'' then
      (stringBody cs).map fun (text, rest) => (.string (String.ofList text), rest)
    else
      match cs with
      | 't' :: 'r' :: 'u' :: 'e' :: rest => some (.boolean true, rest)
      | 'f' :: 'a' :: 'l' :: 's' :: 'e' :: rest => some (.boolean false, rest)
      | _ => (dateTime cs).or (number cs)

/-- Reads the items of an array and its closing bracket. -/
def arrayItems (item : Parser Value) (cs : List Char) : Option (List Value × List Char) :=
  match skipFiller false cs with
  | ']' :: rest => some ([], rest)
  | start => do
    let (value, rest) ← item start
    match skipFiller false rest with
    | ']' :: rest => return ([value], rest)
    | ',' :: rest =>
      if rest.length < cs.length then
        let (values, rest) ← arrayItems item rest
        return (value :: values, rest)
      else none
    | _ => none
termination_by cs.length

/-- Reads a key and its value. -/
def assignment (item : Parser Value) : Parser (Key × Value) := fun cs => do
  let (key, rest) ← key cs
  let (_, rest) ← mark '=' rest
  let (value, rest) ← item (skipBlanks rest)
  return ((key, value), rest)

/-- Reads the assignments of a table between braces and its closing brace. -/
def inlineAssignments (item : Parser Value) (cs : List Char) :
    Option (List (Key × Value) × List Char) := do
  let (first, rest) ← assignment item cs
  match skipBlanks rest with
  | '}' :: rest => return ([first], rest)
  | ',' :: rest =>
    if rest.length < cs.length then
      let (more, rest) ← inlineAssignments item rest
      return (first :: more, rest)
    else none
  | _ => none
termination_by cs.length

/-- Reads a table behind its opening brace. -/
def inlineTable (item : Parser Value) : Parser Value := fun cs =>
  match skipBlanks cs with
  | '}' :: rest => some (.table .inline [], rest)
  | _ => do
    let (assignments, rest) ← inlineAssignments item cs
    let entries ← assignments.foldlM (fun entries (key, value) => Entries.assign? key value entries)
      ([] : Entries)
    return (.table .inline entries, rest)

/-- Reads a value that nests at most `depth` arrays and tables. -/
def value : Nat → Parser Value
  | 0 => scalar
  | depth + 1 => fun cs =>
    match cs with
    | '[' :: rest =>
      (arrayItems (value depth) rest).map fun (items, rest) => (.array .inline items, rest)
    | '{' :: rest => inlineTable (value depth) rest
    | _ => scalar cs

/-- A line that says something. -/
inductive Entry where
  | table (key : Key)
  /-- A header in double brackets. -/
  | item (key : Key)
  | assign (key : Key) (value : Value)

/-- Reads the front of a line that is neither empty nor a comment. -/
def entry : Parser Entry
  | '[' :: '[' :: rest => do
    let (key, rest) ← key rest
    let (_, rest) ← mark ']' rest
    let (_, rest) ← mark ']' rest
    return (.item key, rest)
  | '[' :: rest => do
    let (key, rest) ← key rest
    let (_, rest) ← mark ']' rest
    return (.table key, rest)
  | cs => do
    let ((key, value), rest) ← assignment (value (nestingLimit - 1)) cs
    return (.assign key value, rest)

/-- Reads the lines of a document. -/
def document (cs : List Char) : Option (List Entry) :=
  match skipBlanks cs with
  | [] => some []
  | start =>
    match endLine? start with
    | some rest => if rest.length < cs.length then document rest else none
    | none => do
      let (first, rest) ← entry start
      let rest ← endLine? rest
      if rest.length < cs.length then
        let more ← document rest
        return first :: more
      else none
termination_by cs.length

/-- A document in the making: its entries, and the steps to the table that the last header has
opened. -/
structure Draft where
  /-- All entries so far. -/
  entries : Entries
  /-- Where assignments go. -/
  header : List String

/-- Adds a line to a document. -/
def Draft.add? (draft : Draft) : Entry → Option Draft
  | .table key => do
    return ⟨← draft.entries.openTable? key, key.path ++ [key.last]⟩
  | .item key => do
    return ⟨← draft.entries.openItem? key, key.path ++ [key.last]⟩
  | .assign key value => do
    return ⟨← draft.entries.assignUnder? draft.header key value, draft.header⟩

/-- Reads a document. A byte order mark in front is skipped. -/
def parse (text : String) : Option Entries := do
  let cs := match text.toList with
    | '\ufeff' :: rest => rest
    | cs => cs
  let lines ← document cs
  let draft ← lines.foldlM Draft.add? ⟨[], []⟩
  return draft.entries

end TileFusion.Toml
