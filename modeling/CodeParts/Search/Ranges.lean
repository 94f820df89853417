import CodeParts.Search.Sorted

/-!
# Sets of numbers given by ranges

A `RangeSet` is an array of disjoint ranges in increasing order. Membership is found by
halving; `contains_iff` says that it means to lie in one of the ranges.
-/

namespace CodeParts

/-- Ranges with both ends, each after the one before. -/
def increasingRanges : List (Nat × Nat) → Bool
  | [] => true
  | [r] => decide (r.1 ≤ r.2)
  | r :: s :: rs => decide (r.1 ≤ r.2) && decide (r.2 < s.1) && increasingRanges (s :: rs)

/-- A set of numbers. -/
structure RangeSet where
  /-- The least and the greatest number of each range. -/
  ranges : Array (Nat × Nat)
  /-- The ranges follow each other. -/
  increasing : increasingRanges ranges.toList = true

namespace RangeSet

/-- The number lies in the last range that does not begin after it. -/
def contains (s : RangeSet) (n : Nat) : Bool :=
  match s.ranges[partitionPoint (fun r => decide (r.1 ≤ n)) s.ranges - 1]? with
  | some r => decide (r.1 ≤ n) && decide (n ≤ r.2)
  | none => false

theorem le_of_increasing {rs : List (Nat × Nat)} (h : increasingRanges rs = true) :
    ∀ r ∈ rs, r.1 ≤ r.2 := by
  fun_induction increasingRanges rs with
  | case1 => simp
  | case2 r => simpa using h
  | case3 r s rs ih =>
      simp only [Bool.and_eq_true, decide_eq_true_eq] at h
      intro t ht
      rcases List.mem_cons.1 ht with rfl | ht
      · exact h.1.1
      · exact ih h.2 t ht

theorem pairwise_of_increasing {rs : List (Nat × Nat)} (h : increasingRanges rs = true) :
    rs.Pairwise fun r s => r.2 < s.1 := by
  fun_induction increasingRanges rs with
  | case1 => exact .nil
  | case2 r => exact List.pairwise_singleton _ _
  | case3 r s rs ih =>
      simp only [Bool.and_eq_true, decide_eq_true_eq] at h
      have hpair := ih h.2
      refine .cons (fun t ht => ?_) hpair
      rcases List.mem_cons.1 ht with rfl | ht
      · exact h.1.2
      · have hs := le_of_increasing h.2 s List.mem_cons_self
        have hst := List.rel_of_pairwise_cons hpair ht
        exact Nat.lt_of_lt_of_le h.1.2 (Nat.le_of_lt (Nat.lt_of_le_of_lt hs hst))

variable {s : RangeSet} {i j n : Nat} {q r : Nat × Nat}

theorem le_of_getElem? (h : s.ranges[i]? = some r) : r.1 ≤ r.2 :=
  le_of_increasing s.increasing r (Array.mem_toList_iff.2 (Array.mem_of_getElem? h))

theorem lt_of_getElem? (hi : s.ranges[i]? = some q) (hj : s.ranges[j]? = some r) (hij : i < j) :
    q.2 < r.1 := by
  rw [← Array.getElem?_toList] at hi hj
  obtain ⟨hil, rfl⟩ := List.getElem?_eq_some_iff.1 hi
  obtain ⟨hjl, rfl⟩ := List.getElem?_eq_some_iff.1 hj
  exact List.pairwise_iff_getElem.1 (pairwise_of_increasing s.increasing) i j hil hjl hij

theorem partitioned_ranges (s : RangeSet) (n : Nat) :
    Partitioned (fun r => decide (r.1 ≤ n)) s.ranges := by
  intro i j q r hi hj hij hr
  simp only [decide_eq_true_eq] at hr ⊢
  rcases Nat.eq_or_lt_of_le hij with rfl | hlt
  · rw [hi] at hj
    cases hj
    exact hr
  · have := lt_of_getElem? hi hj hlt
    have := le_of_getElem? hi
    omega

/-- A number belongs to a set if it lies in one of its ranges. -/
theorem contains_iff : s.contains n = true ↔ ∃ r ∈ s.ranges, r.1 ≤ n ∧ n ≤ r.2 := by
  obtain ⟨hsize, hlow, hhigh⟩ := partitionPoint_spec (s.partitioned_ranges n)
  unfold contains
  generalize partitionPoint (fun r => decide (r.1 ≤ n)) s.ranges = t at hsize hlow hhigh ⊢
  constructor
  · intro h
    split at h
    · next r hr =>
      simp only [Bool.and_eq_true, decide_eq_true_eq] at h
      exact ⟨r, Array.mem_of_getElem? hr, h⟩
    · cases h
  · rintro ⟨r, hmem, hle, hge⟩
    obtain ⟨i, hi⟩ := Array.getElem?_of_mem hmem
    have hit : i < t := Nat.lt_of_not_le fun hti => by
      have := hhigh i r hti hi
      simp only [decide_eq_false_iff_not] at this
      omega
    have hlast : i = t - 1 := by
      refine Nat.le_antisymm (by omega) (Nat.le_of_not_lt fun hlt => ?_)
      have hq := Array.getElem?_eq_getElem (show t - 1 < s.ranges.size by omega)
      have := lt_of_getElem? hi hq hlt
      have := of_decide_eq_true (hlow (t - 1) _ (by omega) hq)
      omega
    rw [← hlast, hi]
    simp [hle, hge]

end RangeSet

end CodeParts
