/-!
# Counting and ranking names

`tally` turns a list of names into the increasing list of the different ones, each with
how often it occurs, and `rank` orders such a list by count and cuts it.
-/

namespace CodeParts.Names

/-- Runs of equal names that stand together, each with its length. -/
def runs : List String → List (String × Nat)
  | [] => []
  | x :: xs =>
      match runs xs with
      | [] => [(x, 1)]
      | (y, n) :: rest => if x = y then (y, n + 1) :: rest else (x, 1) :: (y, n) :: rest

/-- The different names in increasing order of code points, each with its count. -/
def tally (names : List String) : List (String × Nat) :=
  runs (names.mergeSort fun a b => decide (a ≤ b))

/-- The different names in increasing order. -/
def distinct (names : List String) : List String := (tally names).map (·.1)

/-- A name that occurs more often comes first; of two with the same count, the smaller. -/
def ranksBefore (a b : String × Nat) : Bool :=
  b.2 < a.2 || (a.2 == b.2 && decide (a.1 ≤ b.1))

/-- The first `n` names of a tally in order of rank. -/
def rank (counts : List (String × Nat)) (n : Nat) : List (String × Nat) :=
  (counts.mergeSort ranksBefore).take n

end CodeParts.Names
