import CodeParts.Digits

/-!
# How floating-point numbers are read

`nearest` is the float next to a decimal. `read?` reads a number as a person types it:
digits on at least one side of an optional point, an optional exponent, or one of the
names of the values that are not finite.
-/

namespace CodeParts.Decimal

/-- The float next to `n · 10 ^ e`. Exponents far out of range are decided without
computing the power. -/
def nearest (n : Nat) (e : Int) : Float :=
  if n = 0 then 0.0
  else if 400 < e then 1.0 / 0.0
  else if e + (Nat.toDigits 10 n).length < -400 then 0.0
  else if e < 0 then Float.ofScientific n true (-e).toNat
  else Float.ofScientific n false e.toNat

/-- No float, and no middle between two neighbouring floats, has more significant digits
than this. -/
def significantDigits : Nat := 800

/-- The float next to the number in decimal digits times `10 ^ e`. Of the digits that are
more than a float or a middle between two floats can have, it only matters whether all are
zero: if not, one digit more stands for them. -/
def nearestOfDigits (ds : List Char) (e : Int) : Float :=
  let ds := ds.dropWhile (· == '0')
  let kept := Digits.value 10 (ds.take significantDigits)
  let rest := ds.drop significantDigits
  if rest.all (· == '0') then nearest kept (e + rest.length)
  else nearest (kept * 10 + 1) (e + rest.length - 1)

/-- The number that the digits of an exponent stand for. Once it has reached `2 ^ 16`, which
is far out of range, further digits do not count. -/
def exponentOfDigits (ds : List Char) : Nat := Digits.valueUpTo 10 (Nat.pow 2 16) ds

/-- The digits at the front of a text, and what follows them. -/
def spanDigits (cs : List Char) : List Char × List Char :=
  (cs.takeWhile Char.isDigit, cs.dropWhile Char.isDigit)

/-- Whether a text begins with a minus, and what follows its sign. -/
def splitSign : (cs : List Char) → Bool × List Char
  | '-' :: cs => (true, cs)
  | '+' :: cs => (false, cs)
  | cs => (false, cs)

/-- The digits after a point, if there is one, and what follows them. -/
def splitFraction : (cs : List Char) → List Char × List Char
  | '.' :: cs => spanDigits cs
  | cs => ([], cs)

/-- An exponent that fills the whole text; zero for an empty text. -/
def exponent? : (cs : List Char) → Option Int
  | [] => some 0
  | c :: cs =>
      if c = 'e' ∨ c = 'E' then
        let (negative, ds) := splitSign cs
        if ds.isEmpty ∨ !ds.all Char.isDigit then none
        else some (if negative then -(exponentOfDigits ds : Int) else exponentOfDigits ds)
      else none

/-- A number without a sign, in digits. -/
def unsigned? (cs : List Char) : Option Float :=
  let (whole, rest) := spanDigits cs
  let (fraction, rest) := splitFraction rest
  if whole.isEmpty ∧ fraction.isEmpty then none
  else (exponent? rest).map fun e => nearestOfDigits (whole ++ fraction) (e - fraction.length)

/-- A value that is not finite, by its name; letter case does not matter. -/
def named? (cs : List Char) : Option Float :=
  let name := String.ofList (cs.map Char.toLower)
  if name = "inf" ∨ name = "infinity" then some (1.0 / 0.0)
  else if name = "nan" then some (0.0 / 0.0)
  else none

/-- The float that a text stands for. -/
def read? (s : String) : Option Float :=
  let (negative, cs) := splitSign s.toList
  ((unsigned? cs).orElse fun _ => named? cs).map fun x => if negative then -x else x

end CodeParts.Decimal
