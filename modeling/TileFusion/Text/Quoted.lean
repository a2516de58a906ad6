import TileFusion.Text.Unprintable

/-!
# Quoted texts

`quoted` shows any text on one line, between double quotes, so that a reader can tell every
character of it. Single quotes need no escape there.
-/

namespace TileFusion

/-- A backslash in front of `c`. -/
def backslashed (c : Char) : List Char :=
  ['\\', c]

/-- A character by its code point, in hexadecimal. -/
def byCodePoint (c : Char) : List Char :=
  "\\u\x7b".toList ++ Nat.toDigits 16 c.toNat ++ ['\x7d']

/-- How a character is shown inside quotes. -/
def shown (c : Char) : List Char :=
  match c with
  | '\x00' => backslashed '0'
  | '\t' => backslashed 't'
  | '\r' => backslashed 'r'
  | '\n' => backslashed 'n'
  | '\\' => backslashed '\\'
  | '"' => backslashed '"'
  | c => if isUnprintable c then byCodePoint c else [c]

/-- A text in double quotes. -/
def quoted (text : String) : String :=
  String.ofList ('"' :: text.toList.flatMap shown ++ ['"'])

end TileFusion
