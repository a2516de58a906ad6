import TileFusion.Toml.Value

/-!
# TOML text: blanks, strings and keys

Parsers take the remaining characters and return a result with what then remains, or nothing. Which
rule a malformed text breaks is never asked for.
-/

namespace TileFusion.Toml

/-- Reads something from the front of a text. -/
abbrev Parser (α : Type) := List Char → Option (α × List Char)

/-- Keys have fewer steps than this, and values nest less deep. -/
def nestingLimit : Nat := 80

/-! ## Blanks, comments and lines -/

/-- Blanks inside a line. -/
def isBlank (c : Char) : Bool :=
  c == ' ' || c == '\t'

/-- Characters of comments and strings: all but the ASCII control characters, among which the tab is
allowed. -/
def isText (c : Char) : Bool :=
  c == '\t' || (' ' ≤ c && c != '\x7f')

/-- Drops blanks. -/
def skipBlanks (cs : List Char) : List Char :=
  cs.dropWhile isBlank

/-- Drops the end of a line. -/
def newline? : List Char → Option (List Char)
  | '\n' :: rest => some rest
  | '\r' :: '\n' :: rest => some rest
  | _ => none

/-- Drops a comment, if there is one. -/
def skipComment : List Char → List Char
  | '#' :: rest => rest.dropWhile isText
  | cs => cs

/-- Drops what may follow the last thing on a line, and the end of the line or of the text. -/
def endLine? (cs : List Char) : Option (List Char) :=
  match skipComment (skipBlanks cs) with
  | [] => some []
  | rest => newline? rest

/-- Drops blanks, comments and line ends, as they may stand between the items of an array. -/
def skipFiller (inComment : Bool) : List Char → List Char
  | [] => []
  | '\n' :: rest => skipFiller false rest
  | '\r' :: '\n' :: rest => skipFiller false rest
  | c :: rest =>
    if inComment then
      if isText c then skipFiller true rest else c :: rest
    else if isBlank c then skipFiller false rest
    else if c == '#' then skipFiller true rest
    else c :: rest

/-! ## Strings -/

/-- Value of a digit, up to base sixteen. -/
def digitValue (c : Char) : Nat :=
  if '0' ≤ c ∧ c ≤ '9' then c.toNat - '0'.toNat
  else if 'a' ≤ c ∧ c ≤ 'f' then c.toNat - 'a'.toNat + 10
  else c.toNat - 'A'.toNat + 10

/-- Digits in base sixteen. -/
def isHexDigit (c : Char) : Bool :=
  c.isDigit || ('a' ≤ c && c ≤ 'f') || ('A' ≤ c && c ≤ 'F')

/-- The number that digits stand for. -/
def numberOf (base : Nat) (digits : List Char) : Nat :=
  digits.foldl (fun n c => n * base + digitValue c) 0

/-- The character that an escape with a number stands for. -/
def scalarValue? (digits : List Char) : Option Char :=
  let code := numberOf 16 digits
  if digits.all isHexDigit && decide code.isValidChar then some (Char.ofNat code) else none

/-- The character that a letter behind a backslash stands for. -/
def escape? : Char → Option Char
  | 'b' => some '\x08'
  | 't' => some '\t'
  | 'n' => some '\n'
  | 'f' => some '\x0c'
  | 'r' => some '\r'
  | '"' => some '"'
  | '\\' => some '\\'
  | _ => none

/-- Puts a character in front of what a parser read. -/
def prepend (c : Char) (parsed : Option (List Char × List Char)) :
    Option (List Char × List Char) :=
  parsed.map fun (text, rest) => (c :: text, rest)

/-- Rest of a string between double quotes. -/
def basicBody : Parser (List Char)
  | [] => none
  | '"' :: rest => some ([], rest)
  | '\\' :: 'u' :: a :: b :: c :: d :: rest =>
    (scalarValue? [a, b, c, d]).bind fun x => prepend x (basicBody rest)
  | '\\' :: 'U' :: a :: b :: c :: d :: e :: f :: g :: h :: rest =>
    (scalarValue? [a, b, c, d, e, f, g, h]).bind fun x => prepend x (basicBody rest)
  | '\\' :: letter :: rest => (escape? letter).bind fun x => prepend x (basicBody rest)
  | c :: rest => if isText c && c != '\\' then prepend c (basicBody rest) else none

/-- Rest of a string between single quotes, where a backslash is a character. -/
def literalBody : Parser (List Char)
  | [] => none
  | '\'' :: rest => some ([], rest)
  | c :: rest => if isText c then prepend c (literalBody rest) else none

/-- What a backslash at the end of a line does to the blanks around it. -/
inductive Trim where
  /-- Blanks and line ends count. -/
  | off
  /-- Behind the backslash; the line has to end. -/
  | toLineEnd
  /-- On the lines behind it, up to the next visible character. -/
  | toText
  deriving DecidableEq, Repr

/-- Rest of a string between three double quotes. One or two quotes are characters, also right in
front of the closing three. -/
def multiBasicBody (trim : Trim) : Parser (List Char)
  | [] => none
  | '\n' :: rest =>
    if trim = .off then prepend '\n' (multiBasicBody .off rest) else multiBasicBody .toText rest
  | '\r' :: '\n' :: rest =>
    if trim = .off then prepend '\n' (multiBasicBody .off rest) else multiBasicBody .toText rest
  | ' ' :: rest =>
    if trim = .off then prepend ' ' (multiBasicBody .off rest) else multiBasicBody trim rest
  | '\t' :: rest =>
    if trim = .off then prepend '\t' (multiBasicBody .off rest) else multiBasicBody trim rest
  | '"' :: '"' :: '"' :: '"' :: '"' :: rest =>
    if trim = .toLineEnd then none else some (['"', '"'], rest)
  | '"' :: '"' :: '"' :: '"' :: rest => if trim = .toLineEnd then none else some (['"'], rest)
  | '"' :: '"' :: '"' :: rest => if trim = .toLineEnd then none else some ([], rest)
  | '\\' :: 'u' :: a :: b :: c :: d :: rest =>
    if trim = .toLineEnd then none
    else (scalarValue? [a, b, c, d]).bind fun x => prepend x (multiBasicBody .off rest)
  | '\\' :: 'U' :: a :: b :: c :: d :: e :: f :: g :: h :: rest =>
    if trim = .toLineEnd then none
    else
      (scalarValue? [a, b, c, d, e, f, g, h]).bind fun x => prepend x (multiBasicBody .off rest)
  | '\\' :: '\n' :: rest => if trim = .toLineEnd then none else multiBasicBody .toText rest
  | '\\' :: '\r' :: '\n' :: rest =>
    if trim = .toLineEnd then none else multiBasicBody .toText rest
  | '\\' :: ' ' :: rest => if trim = .toLineEnd then none else multiBasicBody .toLineEnd rest
  | '\\' :: '\t' :: rest => if trim = .toLineEnd then none else multiBasicBody .toLineEnd rest
  | '\\' :: letter :: rest =>
    if trim = .toLineEnd then none
    else (escape? letter).bind fun x => prepend x (multiBasicBody .off rest)
  | c :: rest =>
    if trim ≠ .toLineEnd ∧ isText c ∧ c ≠ '\\' then prepend c (multiBasicBody .off rest) else none

/-- Rest of a string between three single quotes. -/
def multiLiteralBody : Parser (List Char)
  | [] => none
  | '\n' :: rest => prepend '\n' (multiLiteralBody rest)
  | '\r' :: '\n' :: rest => prepend '\n' (multiLiteralBody rest)
  | '\'' :: '\'' :: '\'' :: '\'' :: '\'' :: rest => some (['\'', '\''], rest)
  | '\'' :: '\'' :: '\'' :: '\'' :: rest => some (['\''], rest)
  | '\'' :: '\'' :: '\'' :: rest => some ([], rest)
  | c :: rest => if isText c then prepend c (multiLiteralBody rest) else none

/-- A line end right behind the opening quotes does not count. -/
def skipFirstNewline (cs : List Char) : List Char :=
  (newline? cs).getD cs

/-- Reads the characters of a string of any of the four forms. -/
def stringBody : Parser (List Char)
  | '"' :: '"' :: '"' :: rest => multiBasicBody .off (skipFirstNewline rest)
  | '"' :: rest => basicBody rest
  | '\'' :: '\'' :: '\'' :: rest => multiLiteralBody (skipFirstNewline rest)
  | '\'' :: rest => literalBody rest
  | _ => none

/-! ## Keys -/

/-- Characters of a key without quotes. -/
def isBareKey (c : Char) : Bool :=
  c.isAlphanum || c == '_' || c == '-'

/-- Reads one step of a key. -/
def keyStep : Parser String
  | '"' :: rest => (basicBody rest).map fun (text, rest) => (String.ofList text, rest)
  | '\'' :: rest => (literalBody rest).map fun (text, rest) => (String.ofList text, rest)
  | cs =>
    match cs.takeWhile isBareKey with
    | [] => none
    | text => some (String.ofList text, cs.dropWhile isBareKey)

/-- Reads a key of at most `steps` steps, with the blanks around it. -/
def keyWithin : Nat → Parser Key
  | 0, _ => none
  | steps + 1, cs => do
    let (name, rest) ← keyStep (skipBlanks cs)
    match skipBlanks rest with
    | '.' :: rest =>
      let (key, rest) ← keyWithin steps rest
      return (⟨name :: key.path, key.last⟩, rest)
    | rest => return (⟨[], name⟩, rest)

/-- Reads a key, with the blanks around it. -/
def key : Parser Key :=
  keyWithin (nestingLimit - 1)

end TileFusion.Toml
