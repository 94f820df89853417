import CodeParts.Decimal.Read
import CodeParts.Json
import CodeParts.Toml.Text

/-!
# Numbers and dates of TOML

A number is tried as a date or time first, then as a float, then as an integer, because
each of the earlier forms may begin like a later one.
-/

namespace CodeParts.Toml

/-! ### Digits -/

/-- Digits of a class, with single underscores between them. -/
def digitTail (isDigit : Char → Bool) : (cs : List Char) → List Char × List Char
  | '_' :: c :: cs =>
      if isDigit c then
        let (ds, rest) := digitTail isDigit cs
        (c :: ds, rest)
      else ([], '_' :: c :: cs)
  | c :: cs =>
      if isDigit c then
        let (ds, rest) := digitTail isDigit cs
        (c :: ds, rest)
      else ([], c :: cs)
  | [] => ([], [])

/-- At least one digit of a class, with single underscores between digits. -/
def digits? (isDigit : Char → Bool) : (cs : List Char) → Option (List Char × List Char)
  | [] => none
  | c :: cs =>
      if isDigit c then
        let (ds, rest) := digitTail isDigit cs
        some (c :: ds, rest)
      else none

/-- A sign, and what follows it: whether the number is negative. -/
def sign? : (cs : List Char) → Option Bool × List Char
  | '+' :: cs => (some false, cs)
  | '-' :: cs => (some true, cs)
  | cs => (none, cs)

/-- Decimal digits without a leading zero, or one zero. -/
def decimal? : (cs : List Char) → Option (List Char × List Char)
  | '0' :: cs => some (['0'], cs)
  | cs => digits? Char.isDigit cs

/-! ### Integers -/

/-- A whole number within 64 bits, one of them for the sign. -/
def integerOf? (negative : Bool) (n : Nat) : Option Json :=
  if negative then
    if n = 0 then some (.number (.natural 0))
    else if n ≤ Nat.pow 2 63 then some (.number (.negative n)) else none
  else if n < Nat.pow 2 63 then some (.number (.natural n)) else none

/-- The number that digits of a base stand for, as far as 64 bits hold it. -/
def magnitude (base : Nat) (ds : List Char) : Nat := Digits.valueUpTo base (Nat.pow 2 64) ds

/-- A digit of base sixteen. -/
def isHexDigit (c : Char) : Bool :=
  c.isDigit || ('a' ≤ c && c ≤ 'f') || ('A' ≤ c && c ≤ 'F')

/-- An integer of a base, after the mark of the base. -/
def based? (base : Nat) (isDigit : Char → Bool) (cs : List Char) : Option (Json × List Char) := do
  let (ds, rest) ← digits? isDigit cs
  some (← integerOf? false (magnitude base ds), rest)

/-- An integer. -/
def integer? : (cs : List Char) → Option (Json × List Char)
  | '0' :: 'x' :: cs => based? 16 isHexDigit cs
  | '0' :: 'o' :: cs => based? 8 (fun c => '0' ≤ c && c ≤ '7') cs
  | '0' :: 'b' :: cs => based? 2 (fun c => c == '0' || c == '1') cs
  | cs => do
      let (negative, rest) := sign? cs
      let (ds, rest) ← decimal? rest
      some (← integerOf? (negative.getD false) (magnitude 10 ds), rest)

/-! ### Floats -/

/-- A float as a value; those that are not finite have no JSON form. -/
def floatOf (x : Float) : Json := if x.isFinite then .number (.float x) else .null

/-- The digits after a point, if there is one. -/
def fraction? : (cs : List Char) → Option (Option (List Char) × List Char)
  | '.' :: cs => (digits? Char.isDigit cs).map fun (ds, rest) => (some ds, rest)
  | cs => some (none, cs)

/-- An exponent after its letter. -/
def exponent? (cs : List Char) : Option (Int × List Char) := do
  let (negative, rest) := sign? cs
  let (ds, rest) ← digits? Char.isDigit rest
  let e : Int := Decimal.exponentOfDigits ds
  some (if negative.getD false then -e else e, rest)

/-- The exponent part, if there is one. -/
def exponentPart? : (cs : List Char) → Option (Option Int × List Char)
  | 'e' :: cs => (exponent? cs).map fun (e, rest) => (some e, rest)
  | 'E' :: cs => (exponent? cs).map fun (e, rest) => (some e, rest)
  | cs => some (none, cs)

/-- A float in digits: it has a fraction, an exponent or both. A positive one must not be
out of range. -/
def decimalFloat? (cs : List Char) : Option (Json × List Char) := do
  let (negative, rest) := sign? cs
  let (whole, rest) ← decimal? rest
  let (fraction, rest) ← fraction? rest
  let (e, rest) ← exponentPart? rest
  if fraction.isNone ∧ e.isNone then none
  else
    let after := fraction.getD []
    let x := Decimal.nearestOfDigits (whole ++ after) (e.getD 0 - after.length)
    if negative.getD false then some (floatOf (-x), rest)
    else if x.isInf then none
    else some (floatOf x, rest)

/-- A float by name: infinity or no number. -/
def namedFloat? (cs : List Char) : Option (Json × List Char) :=
  match (sign? cs).2 with
  | 'i' :: 'n' :: 'f' :: rest => some (.null, rest)
  | 'n' :: 'a' :: 'n' :: rest => some (.null, rest)
  | _ => none

/-! ### Dates and times -/

/-- Exactly `n` decimal digits, their value and what follows. -/
def fixed? (n : Nat) (cs : List Char) : Option (Nat × List Char) :=
  if (cs.take n).length = n ∧ (cs.take n).all Char.isDigit then
    some (Digits.value 10 (cs.take n), cs.drop n)
  else none

/-- `n` decimal digits with a value in a range. -/
def ranged? (n low high : Nat) (cs : List Char) : Option (Nat × List Char) := do
  let (v, rest) ← fixed? n cs
  if low ≤ v ∧ v ≤ high then some (v, rest) else none

/-- What follows a character. -/
def past? (c : Char) : (cs : List Char) → Option (List Char)
  | d :: cs => if c = d then some cs else none
  | [] => none

/-- The number of days of a month. -/
def daysIn (year month : Nat) : Nat :=
  if month = 2 then
    if year % 4 = 0 ∧ (year % 100 ≠ 0 ∨ year % 400 = 0) then 29 else 28
  else if month ∈ [4, 6, 9, 11] then 30
  else 31

/-- What follows a date. -/
def date? (cs : List Char) : Option (List Char) := do
  let (year, rest) ← fixed? 4 cs
  let (month, rest) ← ranged? 2 1 12 (← past? '-' rest)
  let (_, rest) ← ranged? 2 1 (daysIn year month) (← past? '-' rest)
  some rest

/-- What follows a time of day. -/
def time? (cs : List Char) : Option (List Char) := do
  let (_, rest) ← ranged? 2 0 23 cs
  let (_, rest) ← ranged? 2 0 59 (← past? ':' rest)
  let (_, rest) ← ranged? 2 0 60 (← past? ':' rest)
  match rest with
  | '.' :: fraction =>
      if (fraction.takeWhile Char.isDigit).isEmpty then none
      else some (fraction.dropWhile Char.isDigit)
  | _ => some rest

/-- What follows hours and minutes. -/
def hoursAndMinutes? (cs : List Char) : Option (List Char) := do
  let (_, rest) ← ranged? 2 0 23 cs
  let (_, rest) ← ranged? 2 0 59 (← past? ':' rest)
  some rest

/-- What follows the offset of a time, if there is one. -/
def zone? : (cs : List Char) → Option (List Char)
  | 'Z' :: rest => some rest
  | 'z' :: rest => some rest
  | '+' :: rest => hoursAndMinutes? rest
  | '-' :: rest => hoursAndMinutes? rest
  | cs => some cs

/-- What follows a date, a time or both. -/
def dateTime? (cs : List Char) : Option (List Char) :=
  match date? cs with
  | some (c :: rest) =>
      if c = 'T' ∨ c = 't' then (time? rest).bind zone?
      else if c = ' ' then
        match time? rest with
        | some rest => zone? rest
        | none => some (c :: rest)
      else some (c :: rest)
  | some [] => some []
  | none => time? cs

/-- The reserved key of a date. -/
def dateKey : String := "$__toml_private_datetime"

/-- A date or time as a value: an object with its text under the reserved key. -/
def dateObject (text : String) : Json := .object [(dateKey, .string text)]

/-- A character that may stand in a date or time. -/
def isDateChar (c : Char) : Bool := c.isDigit || c ∈ ['-', ':', '.', '+', ' ', 'T', 't', 'Z', 'z']

/-- A date or time. Only characters that may stand in one are looked at. -/
def dateValue? (cs : List Char) : Option (Json × List Char) :=
  let front := cs.takeWhile isDateChar
  (dateTime? front).map fun rest =>
    let length := front.length - rest.length
    (dateObject (String.ofList (front.take length)), cs.drop length)

/-- A number, a date or a time. -/
def number? (cs : List Char) : Option (Json × List Char) :=
  (dateValue? cs).orElse fun _ => (decimalFloat? cs).orElse fun _ =>
    (namedFloat? cs).orElse fun _ => integer? cs

end CodeParts.Toml
