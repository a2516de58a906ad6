import TileFusion.Toml.Text

/-!
# TOML numbers, dates and times

Integers fit in 64 bits with a sign. A decimal that is larger than every number of 64 bits is
refused; one that is smaller than every number reads as negative infinity.
-/

namespace TileFusion.Toml

/-- More digits; an underscore stands between two of them. -/
def moreDigits (isDigit : Char → Bool) : Parser (List Char)
  | [] => some ([], [])
  | '_' :: [] => none
  | '_' :: c :: rest => if isDigit c then prepend c (moreDigits isDigit rest) else none
  | c :: rest => if isDigit c then prepend c (moreDigits isDigit rest) else some ([], c :: rest)

/-- One digit or more. -/
def digits (isDigit : Char → Bool) : Parser (List Char)
  | [] => none
  | c :: rest => if isDigit c then prepend c (moreDigits isDigit rest) else none

/-- The whole part of a decimal number, which has no leading zero. -/
def wholePart : Parser (List Char)
  | '0' :: rest => some (['0'], rest)
  | cs => digits Char.isDigit cs

/-- An optional sign, as whether it is a minus. -/
def sign : List Char → Bool × List Char
  | '+' :: rest => (false, rest)
  | '-' :: rest => (true, rest)
  | cs => (false, cs)

/-- Half of the range of 64-bit numbers. -/
def integerLimit : Nat := 9223372036854775808

/-- An integer within 64 bits. -/
def integer? (negative : Bool) (n : Nat) : Option Value :=
  if negative then
    if n ≤ integerLimit then some (.integer (-n)) else none
  else if n < integerLimit then some (.integer n) else none

/-- An integer in another base than ten, behind its mark. -/
def radixInteger (base : Nat) (isDigit : Char → Bool) : Parser Value := fun cs => do
  let (text, rest) ← digits isDigit cs
  let value ← integer? false (numberOf base text)
  return (value, rest)

/-- An optional power of ten. -/
def exponentPart (cs : List Char) : Option (Int × List Char) :=
  match cs with
  | c :: rest =>
    if c == 'e' || c == 'E' then do
      let (negative, rest) := sign rest
      let (text, rest) ← digits Char.isDigit rest
      let n : Int := numberOf 10 text
      return (if negative then -n else n, rest)
    else some (0, cs)
  | [] => some (0, [])

/-- A number with a fraction or a power of ten. -/
def float? (negative : Bool) (whole fraction : List Char) (exponent : Int) : Option Value :=
  let x := Scalar.ofDecimal binary64 negative (numberOf 10 (whole ++ fraction))
    (exponent - fraction.length)
  if !negative && !x.isFinite then none else some (.float x)

/-- A decimal number behind its sign. -/
def unsignedNumber (negative : Bool) : Parser Value
  | 'i' :: 'n' :: 'f' :: rest => some (.float ⟨negative, binary64.infinity⟩, rest)
  | 'n' :: 'a' :: 'n' :: rest => some (.float ⟨negative, binary64.notANumber⟩, rest)
  | cs => do
    let (whole, rest) ← wholePart cs
    match rest with
    | '.' :: rest =>
      let (fraction, rest) ← digits Char.isDigit rest
      let (exponent, rest) ← exponentPart rest
      return (← float? negative whole fraction exponent, rest)
    | 'e' :: _ | 'E' :: _ =>
      let (exponent, rest) ← exponentPart rest
      return (← float? negative whole [] exponent, rest)
    | _ => return (← integer? negative (numberOf 10 whole), rest)

/-- Reads a number. -/
def number : Parser Value
  | '0' :: 'x' :: rest => radixInteger 16 isHexDigit rest
  | '0' :: 'o' :: rest => radixInteger 8 (fun c => '0' ≤ c && c ≤ '7') rest
  | '0' :: 'b' :: rest => radixInteger 2 (fun c => c == '0' || c == '1') rest
  | cs =>
    let (negative, rest) := sign cs
    unsignedNumber negative rest

/-! ## Dates and times -/

/-- Reads two digits of a number from `least` to `most`. -/
def twoDigits (least most : Nat) : Parser Nat
  | a :: b :: rest =>
    let n := numberOf 10 [a, b]
    if a.isDigit && b.isDigit && decide (least ≤ n ∧ n ≤ most) then some (n, rest) else none
  | _ => none

/-- Reads a given character. -/
def mark (c : Char) : Parser Unit
  | d :: rest => if c == d then some ((), rest) else none
  | [] => none

/-- Number of days in a month. -/
def daysIn (year month : Nat) : Nat :=
  let isLeap := year % 4 == 0 && (year % 100 != 0 || year % 400 == 0)
  if month = 2 then if isLeap then 29 else 28
  else if month = 4 ∨ month = 6 ∨ month = 9 ∨ month = 11 then 30
  else 31

/-- Reads year, month and day, and returns what remains. -/
def date? (cs : List Char) : Option (List Char) := do
  let (century, cs) ← twoDigits 0 99 cs
  let (year, cs) ← twoDigits 0 99 cs
  let (_, cs) ← mark '-' cs
  let (month, cs) ← twoDigits 1 12 cs
  let (_, cs) ← mark '-' cs
  let (_, cs) ← twoDigits 1 (daysIn (century * 100 + year) month) cs
  return cs

/-- Reads hour, minute and second, which may be a leap second, and returns what remains. -/
def time? (cs : List Char) : Option (List Char) := do
  let (_, cs) ← twoDigits 0 23 cs
  let (_, cs) ← mark ':' cs
  let (_, cs) ← twoDigits 0 59 cs
  let (_, cs) ← mark ':' cs
  let (_, cs) ← twoDigits 0 60 cs
  match cs with
  | '.' :: c :: rest => if c.isDigit then return rest.dropWhile Char.isDigit else none
  | '.' :: [] => none
  | _ => return cs

/-- Drops a distance from universal time, if there is one. -/
def skipOffset (cs : List Char) : List Char :=
  match cs with
  | 'Z' :: rest | 'z' :: rest => rest
  | c :: rest =>
    if c == '+' || c == '-' then
      (do
        let (_, rest) ← twoDigits 0 23 rest
        let (_, rest) ← mark ':' rest
        let (_, rest) ← twoDigits 0 59 rest
        return rest).getD cs
    else cs
  | [] => []

/-- Reads a date, a time, or both, and returns what remains. -/
def dateTimeRest? (cs : List Char) : Option (List Char) :=
  match date? cs with
  | none => time? cs
  | some rest =>
    match rest with
    | c :: later =>
      if c == 'T' || c == 't' || c == ' ' then
        match time? later with
        | some rest => some (skipOffset rest)
        | none => some rest
      else some rest
    | [] => some []

/-- Reads a date, a time, or both. -/
def dateTime : Parser Value := fun cs =>
  (dateTimeRest? cs).map fun rest =>
    (.dateTime (String.ofList (cs.take (cs.length - rest.length))), rest)

end TileFusion.Toml
