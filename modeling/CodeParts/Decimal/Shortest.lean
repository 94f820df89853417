/-!
# The shortest decimal of a binary floating-point number

A finite 64-bit float is `m · 2^q` with whole `m`; every real number between the
midpoints to its two neighbours rounds to it, and the midpoints themselves do when
`m` is even. `ofFloat` is the decimal with the fewest digits in that interval, and of
several with that many digits the one nearest to the float. Two can be equally near; which
of them is taken is up to the caller.

All arithmetic is on natural numbers. For each count of digits only the two points
of the decimal grid around the float can be candidates, because the interval is
convex and contains it; seventeen digits always suffice.
-/

namespace CodeParts

/-- The decimal number `digits · 10 ^ exponent`. -/
structure Decimal where
  digits : Nat
  exponent : Int
  deriving DecidableEq, Repr

namespace Decimal

/-- The non-negative number `mantissa · 2 ^ exponent`. -/
structure Dyadic where
  mantissa : Nat
  exponent : Int
  /-- The gap to the next smaller float is half the gap to the next larger one. -/
  narrowBelow : Bool
  deriving DecidableEq, Repr

/-- The magnitude of a finite 64-bit float, from its bits. -/
def Dyadic.ofBits (bits : Nat) : Dyadic :=
  if bits / Nat.pow 2 52 % Nat.pow 2 11 = 0 then ⟨bits % Nat.pow 2 52, -1074, false⟩
  else
    ⟨Nat.pow 2 52 + bits % Nat.pow 2 52, (bits / Nat.pow 2 52 % Nat.pow 2 11 : Nat) - 1075,
      bits % Nat.pow 2 52 == 0 && bits / Nat.pow 2 52 % Nat.pow 2 11 != 1⟩

/-- Number of decimal digits; zero has none. -/
def digitCount (n : Nat) : Nat := if n = 0 then 0 else (Nat.toDigits 10 n).length

/-- The exponent `k` with `10 ^ k ≤ num / den < 10 ^ (k + 1)`, for positive `num`
and `den`. -/
def magnitude (num den : Nat) : Int :=
  if den ≤ num then digitCount (num / den) - 1
  else -(digitCount ((den + num - 1) / num - 1) : Nat)

/-- Which of two whole numbers that are equally near is taken. -/
inductive Tie where
  /-- The even one. -/
  | even
  /-- The larger one. -/
  | up
  deriving DecidableEq, Repr

/-- The number taken for a value halfway between `n` and the next one. -/
def Tie.resolve (tie : Tie) (n : Nat) : Nat :=
  match tie with
  | .even => n + n % 2
  | .up => n + 1

/-- The numbers that round to one float, as fractions over one denominator. -/
structure Interval where
  low : Nat
  value : Nat
  high : Nat
  denominator : Nat
  /-- Whether the two ends belong to it. -/
  closed : Bool

/-- The rounding interval of `d`, in quarters of the gap between floats. -/
def Dyadic.interval (d : Dyadic) : Interval :=
  ⟨(4 * d.mantissa - if d.narrowBelow then 1 else 2) * Nat.pow 2 (d.exponent - 2).toNat,
    4 * d.mantissa * Nat.pow 2 (d.exponent - 2).toNat,
    (4 * d.mantissa + 2) * Nat.pow 2 (d.exponent - 2).toNat,
    Nat.pow 2 (2 - d.exponent).toNat,
    d.mantissa % 2 == 0⟩

/-- The interval divided by `10 ^ e`. -/
def Interval.scale (r : Interval) (e : Int) : Interval :=
  ⟨r.low * Nat.pow 10 (-e).toNat, r.value * Nat.pow 10 (-e).toNat, r.high * Nat.pow 10 (-e).toNat,
    r.denominator * Nat.pow 10 e.toNat, r.closed⟩

/-- The whole number `n` lies in the interval. -/
def Interval.contains (r : Interval) (n : Nat) : Bool :=
  if r.closed then r.low ≤ n * r.denominator && n * r.denominator ≤ r.high
  else r.low < n * r.denominator && n * r.denominator < r.high

/-- The whole number of the interval nearest to its value, if the interval contains a
neighbour of its value. -/
def Interval.nearest (tie : Tie) (r : Interval) : Option Nat :=
  match r.contains (r.value / r.denominator), r.contains (r.value / r.denominator + 1) with
  | true, true =>
      match compare (2 * (r.value % r.denominator)) r.denominator with
      | .lt => some (r.value / r.denominator)
      | .gt => some (r.value / r.denominator + 1)
      | .eq => some (tie.resolve (r.value / r.denominator))
  | true, false => some (r.value / r.denominator)
  | false, true => some (r.value / r.denominator + 1)
  | false, false => none

/-- The decimal without trailing zero digits. -/
def normalize (fuel : Nat) (d : Decimal) : Decimal :=
  match fuel with
  | 0 => d
  | fuel + 1 =>
      if d.digits ≠ 0 ∧ d.digits % 10 = 0 then
        normalize fuel ⟨d.digits / 10, d.exponent + 1⟩
      else d

/-- The first grid, from `n` digits on, with a point in the interval. -/
def shortestFrom (tie : Tie) (r : Interval) (n : Nat) : (more : Nat) → Decimal
  | 0 => ⟨(r.scale (magnitude r.value r.denominator + 1 - n)).value /
      (r.scale (magnitude r.value r.denominator + 1 - n)).denominator,
      magnitude r.value r.denominator + 1 - n⟩
  | more + 1 =>
      match (r.scale (magnitude r.value r.denominator + 1 - n)).nearest tie with
      | some digits => ⟨digits, magnitude r.value r.denominator + 1 - n⟩
      | none => shortestFrom tie r (n + 1) more

/-- The shortest decimal that reads back as the magnitude with these bits. -/
def ofBits (tie : Tie) (bits : Nat) : Decimal :=
  if (Dyadic.ofBits bits).mantissa = 0 then ⟨0, 0⟩
  else normalize 20 (shortestFrom tie (Dyadic.ofBits bits).interval 1 17)

/-- The shortest decimal that reads back as the magnitude of a finite float. -/
def ofFloat (tie : Tie) (x : Float) : Decimal := ofBits tie (x.toBits.toNat % Nat.pow 2 63)

end Decimal

end CodeParts
