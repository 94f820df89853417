/-!
# Numbers in digits

`value` is the number that digits stand for. Where only a number below some limit counts,
`valueUpTo` stops growing once it has reached the limit: it is the number itself if that
is below the limit (`valueUpTo_eq`), and not below it otherwise (`le_valueUpTo`).
-/

namespace CodeParts.Digits

/-- The value of a digit up to base sixteen. -/
def ofChar (c : Char) : Nat :=
  if c.isDigit then c.toNat - '0'.toNat
  else if 'a' ≤ c ∧ c ≤ 'f' then c.toNat - 'a'.toNat + 10
  else c.toNat - 'A'.toNat + 10

/-- The number that digits of a base stand for, after digits that stand for `n`. -/
def valueFrom (base : Nat) (n : Nat) (ds : List Char) : Nat :=
  ds.foldl (fun n d => n * base + ofChar d) n

/-- The number that digits of a base stand for. -/
def value (base : Nat) (ds : List Char) : Nat := valueFrom base 0 ds

/-- The number that digits of a base stand for, after digits that stand for `n`; from the
digit on that reaches the limit no further ones count. -/
def valueUpToFrom (base limit : Nat) (n : Nat) (ds : List Char) : Nat :=
  ds.foldl (fun n d => if n < limit then n * base + ofChar d else n) n

/-- The number that digits of a base stand for; from the digit on that reaches the limit no
further ones count. -/
def valueUpTo (base limit : Nat) (ds : List Char) : Nat := valueUpToFrom base limit 0 ds

variable {base limit n : Nat} {ds : List Char}

theorem le_valueFrom (hbase : 0 < base) : n ≤ valueFrom base n ds := by
  induction ds generalizing n with
  | nil => exact Nat.le_refl n
  | cons d ds ih =>
      have := Nat.le_mul_of_pos_right n hbase
      exact Nat.le_trans (by omega) (ih (n := n * base + ofChar d))

theorem valueUpToFrom_of_le (h : limit ≤ n) : valueUpToFrom base limit n ds = n := by
  induction ds with
  | nil => rfl
  | cons d ds ih =>
      rw [valueUpToFrom, List.foldl_cons, if_neg (Nat.not_lt.2 h)]
      exact ih

theorem valueUpToFrom_eq (hbase : 0 < base) (h : valueFrom base n ds < limit) :
    valueUpToFrom base limit n ds = valueFrom base n ds := by
  induction ds generalizing n with
  | nil => rfl
  | cons d ds ih =>
      have hn : n < limit := Nat.lt_of_le_of_lt (le_valueFrom hbase) h
      rw [valueUpToFrom, List.foldl_cons, if_pos hn]
      exact ih h

theorem le_valueUpToFrom (h : limit ≤ valueFrom base n ds) :
    limit ≤ valueUpToFrom base limit n ds := by
  induction ds generalizing n with
  | nil => exact h
  | cons d ds ih =>
      by_cases hn : n < limit
      · rw [valueUpToFrom, List.foldl_cons, if_pos hn]
        exact ih h
      · rw [valueUpToFrom_of_le (Nat.not_lt.1 hn)]
        exact Nat.not_lt.1 hn

/-- A number below the limit is read exactly. -/
theorem valueUpTo_eq (hbase : 0 < base) (h : value base ds < limit) :
    valueUpTo base limit ds = value base ds :=
  valueUpToFrom_eq hbase h

/-- A number that reaches the limit is read as one that does. -/
theorem le_valueUpTo (h : limit ≤ value base ds) : limit ≤ valueUpTo base limit ds :=
  le_valueUpToFrom h

end CodeParts.Digits
