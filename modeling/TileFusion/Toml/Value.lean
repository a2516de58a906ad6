import TileFusion.Scalar.Layout

/-!
# TOML values

A TOML document is a table of values. Besides its entries a table remembers how it came about, since
that decides which later lines may add to it: a table may be opened by one header only, a table made
by a dotted key may only grow through dotted keys, and a table written between braces not at all.
-/

namespace TileFusion.Toml

/-- How a table came about. -/
inductive TableKind where
  /-- Between braces. -/
  | inline
  /-- Under a header of its own; the document itself counts as one. -/
  | header
  /-- As a step on the way to a header. -/
  | implied
  /-- As a step of a dotted key. -/
  | dotted
  deriving DecidableEq, Repr

/-- How an array came about. -/
inductive ArrayKind where
  /-- Between brackets. -/
  | inline
  /-- Through headers in double brackets. -/
  | tables
  deriving DecidableEq, Repr

/-- A value. -/
inductive Value where
  | string (text : String)
  | integer (n : Int)
  | float (x : Scalar binary64)
  | boolean (b : Bool)
  | dateTime (text : String)
  | array (kind : ArrayKind) (items : List Value)
  | table (kind : TableKind) (entries : List (String × Value))
  deriving Repr

/-- The entries of a table, in order, each key once. -/
abbrev Entries := List (String × Value)

/-- A key: the steps to a table, and the name in it. -/
structure Key where
  path : List String
  last : String
  deriving DecidableEq, Repr

namespace Entries

/-- The entries with the value of a key replaced. -/
def replace (key : String) (value : Value) (entries : Entries) : Entries :=
  entries.map fun entry => if entry.1 == key then (key, value) else entry

/-- Adds an entry; a key is given once. -/
def add? (key : String) (value : Value) (entries : Entries) : Option Entries :=
  if (entries.lookup key).isSome then none else some (entries ++ [(key, value)])

/-- Changes the entries of the table that a list of steps leads to. A step that is missing is made,
as a table of the kind `made`. A step through an array of tables goes to its last table. Dotted keys
do not enter a table that has a header, and nothing enters a value between brackets or braces.
`change` also sees the kind of the table that it changes; `kind` is the one of `entries`. -/
def alter (made : TableKind) (change : TableKind → Entries → Option Entries) (kind : TableKind)
    (entries : Entries) : List String → Option Entries
  | [] => change kind entries
  | step :: rest =>
    match entries.lookup step with
    | none => do
      let inner ← alter made change made [] rest
      return entries ++ [(step, .table made inner)]
    | some (.table kind inner) =>
      if kind == .inline || (made == .dotted && kind == .header) then none
      else do
        let inner ← alter made change kind inner rest
        return replace step (.table kind inner) entries
    | some (.array .tables items) =>
      match items.getLast? with
      | some (.table _ inner) => do
        let inner ← alter made change .header inner rest
        return replace step (.array .tables (items.dropLast ++ [.table .header inner])) entries
      | _ => none
    | some _ => none

/-- Assigns a value to a key, seen from the table with these entries. A dotted key ends in a table
that dotted keys made. -/
def assign? (key : Key) (value : Value) (entries : Entries) : Option Entries :=
  alter .dotted
    (fun kind inner =>
      if (kind == .dotted) == key.path.isEmpty then none else add? key.last value inner)
    .header entries key.path

/-- Opens the table of a header. -/
def openTable? (key : Key) (entries : Entries) : Option Entries :=
  alter .implied
    (fun _ inner =>
      match inner.lookup key.last with
      | none => some (inner ++ [(key.last, .table .header [])])
      | some (.table .implied children) => some (replace key.last (.table .header children) inner)
      | some _ => none)
    .header entries key.path

/-- Opens one more table of an array of tables. -/
def openItem? (key : Key) (entries : Entries) : Option Entries :=
  alter .implied
    (fun _ inner =>
      match inner.lookup key.last with
      | none => some (inner ++ [(key.last, .array .tables [.table .header []])])
      | some (.array .tables items) =>
        some (replace key.last (.array .tables (items ++ [.table .header []])) inner)
      | some _ => none)
    .header entries key.path

/-- Assigns a value to a key, seen from the table that the last header has opened. -/
def assignUnder? (header : List String) (key : Key) (value : Value) (entries : Entries) :
    Option Entries :=
  alter .implied (fun _ inner => assign? key value inner) .header entries header

end Entries

end TileFusion.Toml
