import CodeParts.Decimal.Shortest

/-!
# How floating-point numbers are written

Both forms write the digits of the shortest decimal that reads back. `Decimal.plain`
never uses an exponent and is the form of messages; `Decimal.scientific` is the form
of data, with an exponent outside a middle range and always with a mark that the
number is not whole. Of two shortest decimals that are equally near, messages show the
larger one and data the one that ends in an even digit.
-/

namespace CodeParts.Decimal

/-- The digits of a number as characters. -/
def digitChars (n : Nat) : List Char := Nat.toDigits 10 n

/-- Digits with a point after the first `whole` of them, padded by zeros on either
side so that at least one digit stands before the point; no point without digits
after it. -/
def withPoint (digits : List Char) (whole : Int) : List Char :=
  if whole ≤ 0 then
    '0' :: '.' :: (List.replicate (-whole).toNat '0' ++ digits)
  else if digits.length ≤ whole.toNat then
    digits ++ List.replicate (whole.toNat - digits.length) '0'
  else digits.take whole.toNat ++ '.' :: digits.drop whole.toNat

/-- How many digits of the decimal stand before the point. -/
def wholeDigits (d : Decimal) : Int := (digitChars d.digits).length + d.exponent

/-- The decimal without an exponent. -/
def positional (d : Decimal) : List Char :=
  if d.digits = 0 then ['0'] else withPoint (digitChars d.digits) d.wholeDigits

/-- A mark that a number is not whole, where the text shows none. -/
def marked (cs : List Char) : List Char :=
  if cs.contains '.' then cs else cs ++ ['.', '0']

/-- The sign of a float, zero included. -/
def signOf (x : Float) : List Char := if x.toBits.toNat < Nat.pow 2 63 then [] else ['-']

/-- A float in a message: never an exponent, whole numbers without a point. -/
def plain (x : Float) : String :=
  if x.isNaN then "NaN"
  else if x.isInf then String.ofList (signOf x ++ ['i', 'n', 'f'])
  else String.ofList (signOf x ++ (ofFloat .up x).positional)

/-- An exponent with its sign. -/
def exponentText (e : Int) : List Char :=
  (if e < 0 then '-' else '+') :: digitChars e.natAbs

/-- The decimal with an exponent unless its point stands within or just around its
digits: from five places before them to the sixteenth. -/
def scientificDigits (d : Decimal) : List Char :=
  if d.digits = 0 then ['0', '.', '0']
  else if -5 < d.wholeDigits ∧ d.wholeDigits ≤ 16 then marked d.positional
  else
    withPoint (digitChars d.digits) 1 ++ 'e' :: exponentText (d.wholeDigits - 1)

/-- A finite float as data. -/
def scientific (x : Float) : String :=
  String.ofList (signOf x ++ (ofFloat .even x).scientificDigits)

end CodeParts.Decimal
