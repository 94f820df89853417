import CodeParts.Digits
import CodeParts.Json

/-!
# Reading JSON

`Json.read?` accepts exactly the JSON grammar, with two limits: values nest at most
127 deep, and a number must not exceed the range of 64-bit floats. Each function
takes the text that is left and returns a value with what it leaves. Where a loop needs
fuel, one more than the length of the whole text is enough.

A whole number within 64 bits is kept exactly. Any other number is a float computed
from its first digits, as many as a 64-bit word holds, scaled by one power of ten.
-/

namespace CodeParts.Json

/-- The white space of JSON. -/
def isSpace (c : Char) : Bool := c = ' ' || c = '\n' || c = '\t' || c = '\r'

/-- The text from the first character that is not white space. -/
def skipSpace (cs : List Char) : List Char := cs.dropWhile isSpace

/-- What follows `word`, if the text begins with it. -/
def after? : (word : List Char) → (cs : List Char) → Option (List Char)
  | [], cs => some cs
  | _ :: _, [] => none
  | w :: word, c :: cs => if w = c then after? word cs else none

/-! ### Strings -/

/-- The value of a digit of base sixteen. -/
def hexValue? (c : Char) : Option Nat :=
  if '0' ≤ c ∧ c ≤ '9' then some (c.toNat - '0'.toNat)
  else if 'a' ≤ c ∧ c ≤ 'f' then some (c.toNat - 'a'.toNat + 10)
  else if 'A' ≤ c ∧ c ≤ 'F' then some (c.toNat - 'A'.toNat + 10)
  else none

/-- The value of four digits of base sixteen, and what follows them. -/
def unit? : (cs : List Char) → Option (Nat × List Char)
  | a :: b :: c :: d :: cs => do
      let a ← hexValue? a
      let b ← hexValue? b
      let c ← hexValue? c
      let d ← hexValue? d
      some (((a * 16 + b) * 16 + c) * 16 + d, cs)
  | _ => none

/-- The character of one unit, or of a high surrogate and the low one after it. -/
def unitChar? (cs : List Char) : Option (Char × List Char) := do
  let (high, rest) ← unit? cs
  if 0xD800 ≤ high ∧ high < 0xDC00 then
    let (low, rest) ← unit? (← after? ['\\', 'u'] rest)
    if 0xDC00 ≤ low ∧ low < 0xE000 then
      some (Char.ofNat (0x10000 + (high - 0xD800) * 0x400 + (low - 0xDC00)), rest)
    else none
  else if 0xDC00 ≤ high ∧ high < 0xE000 then none
  else some (Char.ofNat high, rest)

/-- The character after a backslash. -/
def escape? : (cs : List Char) → Option (Char × List Char)
  | '"' :: cs => some ('"', cs)
  | '\\' :: cs => some ('\\', cs)
  | '/' :: cs => some ('/', cs)
  | 'b' :: cs => some ('\x08', cs)
  | 'f' :: cs => some ('\x0c', cs)
  | 'n' :: cs => some ('\n', cs)
  | 'r' :: cs => some ('\r', cs)
  | 't' :: cs => some ('\t', cs)
  | 'u' :: cs => unitChar? cs
  | _ => none

/-- The characters up to the closing quote, after those already read, newest first.
The fuel bounds their number. -/
def stringTail? (done : List Char) : (fuel : Nat) → (cs : List Char) →
    Option (String × List Char)
  | 0, _ => none
  | _ + 1, [] => none
  | fuel + 1, c :: cs =>
      if c = '"' then some (String.ofList done.reverse, cs)
      else if c = '\\' then
        match escape? cs with
        | some (e, cs) => stringTail? (e :: done) fuel cs
        | none => none
      else if c.toNat < 0x20 then none
      else stringTail? (c :: done) fuel cs

/-- A string in its quotes. -/
def string? (fuel : Nat) : (cs : List Char) → Option (String × List Char)
  | '"' :: cs => stringTail? [] fuel cs
  | _ => none

/-! ### Numbers -/

/-- The leading decimal digits and what follows them. -/
def digitRun (cs : List Char) : List Char × List Char :=
  (cs.takeWhile Char.isDigit, cs.dropWhile Char.isDigit)

/-- Appends digits to a whole number while it stays below `2 ^ 64`; also how many of
them it did not take. -/
def appendDigits (n : Nat) : (digits : List Char) → Nat × Nat
  | [] => (n, 0)
  | d :: ds =>
      if n * 10 + Digits.ofChar d < Nat.pow 2 64 then appendDigits (n * 10 + Digits.ofChar d) ds
      else (n, (d :: ds).length)

/-- The float next to `10 ^ n`, for `n ≤ 308`. -/
def powerOfTen (n : Nat) : Float := Float.ofScientific 1 false n

/-- A float divided by a power of ten, in steps of at most `10 ^ 308`. -/
def divideByPower (x : Float) (n : Nat) : Float :=
  if n ≤ 308 then x / powerOfTen n
  else if x == 0.0 then x
  else divideByPower (x / powerOfTen 308) (n - 308)
termination_by n

/-- The float `n · 10 ^ e`, unless it is out of range. -/
def scaled? (n : Nat) (e : Int) : Option Float :=
  if e < 0 then some (divideByPower n.toUInt64.toFloat (-e).toNat)
  else if n = 0 then some 0.0
  else if 308 < e then none
  else if (n.toUInt64.toFloat * powerOfTen e.toNat).isInf then none
  else some (n.toUInt64.toFloat * powerOfTen e.toNat)

/-- The digits of an exponent, at least one, with its sign. From `2 ^ 31` on the exponent is
out of range whatever the digits of the number are, and its own further digits do not count. -/
def exponentDigits? (sign : Int) (cs : List Char) : Option (Int × List Char) :=
  let (ds, rest) := digitRun cs
  if ds.isEmpty then none else some (sign * (Digits.valueUpTo 10 (Nat.pow 2 31) ds : Nat), rest)

/-- The exponent after its letter. -/
def exponent? : (cs : List Char) → Option (Int × List Char)
  | '-' :: cs => exponentDigits? (-1) cs
  | '+' :: cs => exponentDigits? 1 cs
  | cs => exponentDigits? 1 cs

/-- The exponent part, if there is one; without one the exponent is zero. -/
def exponentPart? : (cs : List Char) → Option (Int × List Char)
  | 'e' :: cs => exponent? cs
  | 'E' :: cs => exponent? cs
  | cs => some (0, cs)

/-- The digits before the point: one zero, or digits that do not begin with one. -/
def wholePart? (cs : List Char) : Option (List Char × List Char) :=
  match digitRun cs with
  | ([], _) => none
  | ('0' :: _ :: _, _) => none
  | (ds, rest) => some (ds, rest)

/-- The digits after the point, if there is a point; at least one follows it. -/
def fractionPart? : (cs : List Char) → Option (Option (List Char) × List Char)
  | '.' :: cs =>
      if (digitRun cs).1.isEmpty then none else some (some (digitRun cs).1, (digitRun cs).2)
  | cs => some (none, cs)

/-- A float with a sign. -/
def signed (negative : Bool) (x : Float) : Float := if negative then -x else x

/-- A whole number: exact within 64 bits, else a float. -/
def wholeNumber? (negative : Bool) (n dropped : Nat) : Option Number :=
  if dropped ≠ 0 then (scaled? n dropped).map fun x => .float (signed negative x)
  else if negative then
    if n = 0 ∨ Nat.pow 2 63 < n then some (.float (-n.toUInt64.toFloat)) else some (.negative n)
  else some (.natural n)

/-- A number after its sign. -/
def unsigned? (negative : Bool) (cs : List Char) : Option (Number × List Char) := do
  let (whole, rest) ← wholePart? cs
  let (fraction, rest) ← fractionPart? rest
  let (n, dropped) := appendDigits 0 whole
  match fraction, rest with
  | none, 'e' :: _ | none, 'E' :: _ =>
      let (e, rest) ← exponentPart? rest
      some (.float (signed negative (← scaled? n (dropped + e))), rest)
  | none, rest => some (← wholeNumber? negative n dropped, rest)
  | some fraction, rest =>
      let (e, rest) ← exponentPart? rest
      let (n, unused) := appendDigits n fraction
      let shift : Int := dropped + unused - fraction.length
      some (.float (signed negative (← scaled? n (shift + e))), rest)

/-- A number. -/
def number? : (cs : List Char) → Option (Number × List Char)
  | '-' :: cs => unsigned? true cs
  | cs => unsigned? false cs

/-! ### Values -/

/-- Items separated by commas up to the closing character, after those already read,
newest first. The fuel bounds their number. -/
def items? {α : Type} (item? : List Char → Option (α × List Char)) (closing : Char)
    (done : List α) : (fuel : Nat) → (cs : List Char) → Option (List α × List Char)
  | 0, _ => none
  | fuel + 1, cs =>
      match item? (skipSpace cs) with
      | none => none
      | some (a, rest) =>
          match skipSpace rest with
          | c :: rest =>
              if c = closing then some ((a :: done).reverse, rest)
              else if c = ',' then items? item? closing (a :: done) fuel rest
              else none
          | [] => none

/-- Items up to the closing character, possibly none. -/
def container? {α : Type} (item? : List Char → Option (α × List Char)) (closing : Char)
    (fuel : Nat) (cs : List Char) : Option (List α × List Char) :=
  match skipSpace cs with
  | c :: rest =>
      if c = closing then some ([], rest) else items? item? closing [] fuel cs
  | [] => none

/-- A key, a colon and a value. -/
def field? (value? : List Char → Option (Json × List Char)) (fuel : Nat) (cs : List Char) :
    Option ((String × Json) × List Char) := do
  let (key, rest) ← string? fuel cs
  let (v, rest) ← value? (skipSpace (← after? [':'] (skipSpace rest)))
  some ((key, v), rest)

/-- Fields with each key once, at its first place and with its last value. -/
def lastWins (fields : List (String × Json)) : List (String × Json) :=
  fields.foldl
    (fun kept f =>
      if kept.any (·.1 == f.1) then kept.map fun g => if g.1 == f.1 then f else g
      else kept ++ [f])
    []

/-- A value that begins the text and nests at most `depth` deep. -/
def value? (fuel depth : Nat) (cs : List Char) : Option (Json × List Char) :=
  match cs, depth with
  | '"' :: _, _ => (string? fuel cs).map fun (s, rest) => (.string s, rest)
  | '[' :: rest, depth + 1 =>
      (container? (value? fuel depth) ']' fuel rest).map fun (vs, rest) => (.array vs, rest)
  | '\x7b' :: rest, depth + 1 =>
      (container? (field? (value? fuel depth) fuel) '\x7d' fuel rest).map fun (fs, rest) =>
        (.object (lastWins fs), rest)
  | 'n' :: rest, _ => (after? ['u', 'l', 'l'] rest).map fun rest => (.null, rest)
  | 't' :: rest, _ => (after? ['r', 'u', 'e'] rest).map fun rest => (.bool true, rest)
  | 'f' :: rest, _ => (after? ['a', 'l', 's', 'e'] rest).map fun rest => (.bool false, rest)
  | _, _ => (number? cs).map fun (n, rest) => (.number n, rest)

/-- How deep values may nest. -/
def maxDepth : Nat := 127

/-- The value that a text is, with white space around it. -/
def read? (cs : List Char) : Option Json := do
  let (v, rest) ← value? (cs.length + 1) maxDepth (skipSpace cs)
  if (skipSpace rest).isEmpty then some v else none

end CodeParts.Json
