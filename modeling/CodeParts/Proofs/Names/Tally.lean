import CodeParts.Names.Tally

/-!
# What a tally says

A tally lists the names that occur (`mem_map_fst_tally`), in increasing order and so each of
them once (`pairwise_tally`), with the number of their occurrences (`countOf_tally`). What
such a list says of a name does not depend on its order, so a ranking that leaves nothing out
says the same (`countOf_rank`).
-/

namespace CodeParts.Names

variable {names xs : List String} {counts counts' : List (String × Nat)} {x name : String} {n : Nat}

/-! ### Runs of equal names -/

/-- A name in front prolongs the first run or begins a new one. -/
theorem runs_cons (x : String) (xs : List String) :
    (∃ n rest, runs xs = (x, n) :: rest ∧ runs (x :: xs) = (x, n + 1) :: rest) ∨
      ((∀ entry rest, runs xs = entry :: rest → x ≠ entry.1) ∧
        runs (x :: xs) = (x, 1) :: runs xs) := by
  rw [runs]
  cases hruns : runs xs with
  | nil =>
      refine .inr ⟨fun entry rest h => ?_, rfl⟩
      cases h
  | cons entry rest =>
      by_cases hx : x = entry.1
      · refine .inl ⟨entry.2, rest, by rw [hx], ?_⟩
        subst hx
        exact if_pos rfl
      · refine .inr ⟨fun other rest h => ?_, if_neg hx⟩
        cases h
        exact hx

theorem mem_map_fst_runs : name ∈ (runs xs).map Prod.fst ↔ name ∈ xs := by
  induction xs with
  | nil => exact Iff.rfl
  | cons x xs ih =>
      rw [List.mem_cons, ← ih]
      rcases runs_cons x xs with ⟨n, rest, hxs, h⟩ | ⟨-, h⟩
      · rw [h, hxs, List.map_cons, List.map_cons, List.mem_cons]
        exact ⟨.inr, fun h => h.elim .inl id⟩
      · rw [h, List.map_cons, List.mem_cons]

/-- The runs of a sorted list are of different names. -/
theorem pairwise_runs (h : xs.Pairwise (· ≤ ·)) : (runs xs).Pairwise fun a b => a.1 < b.1 := by
  induction xs with
  | nil => exact List.Pairwise.nil
  | cons x xs ih =>
      obtain ⟨hle, hsorted⟩ := List.pairwise_cons.1 h
      have hxs := ih hsorted
      rcases runs_cons x xs with ⟨n, rest, hrest, h⟩ | ⟨hhead, h⟩
      · rw [hrest, List.pairwise_cons] at hxs
        rw [h]
        exact List.pairwise_cons.2 hxs
      · rw [h]
        refine List.pairwise_cons.2 ⟨fun entry hentry => ?_, hxs⟩
        -- The name is less than that of the first run, and that is the least.
        obtain ⟨first, rest, hrest⟩ := List.exists_cons_of_ne_nil (List.ne_nil_of_mem hentry)
        have hmem : first.1 ∈ xs := by
          rw [← mem_map_fst_runs, hrest]
          exact List.mem_cons_self
        have hlt := Std.lt_of_le_of_ne (hle _ hmem) (hhead first rest hrest)
        rw [hrest] at hxs hentry
        rcases List.mem_cons.1 hentry with rfl | hentry
        · exact hlt
        · exact String.lt_trans hlt ((List.pairwise_cons.1 hxs).1 entry hentry)

/-! ### Counts -/

/-- The count of a name in a list of counts; zero if the name is not there. -/
def countOf (counts : List (String × Nat)) (name : String) : Nat := (counts.lookup name).getD 0

theorem countOf_cons (entry : String × Nat) (counts : List (String × Nat)) (name : String) :
    countOf (entry :: counts) name = if name = entry.1 then entry.2 else countOf counts name := by
  rw [countOf, List.lookup_cons]
  by_cases h : name = entry.1
  · rw [if_pos h, beq_iff_eq.2 h, Option.getD_some]
  · rw [if_neg h, beq_eq_false_iff_ne.2 h, countOf]

/-- The run of a name in a sorted list holds all its occurrences. -/
theorem countOf_runs (h : xs.Pairwise (· ≤ ·)) (name : String) :
    countOf (runs xs) name = xs.count name := by
  induction xs with
  | nil => rfl
  | cons x xs ih =>
      have ih := ih (List.pairwise_cons.1 h).2
      have hpairwise := pairwise_runs h
      rcases runs_cons x xs with ⟨n, rest, hrest, h⟩ | ⟨-, h⟩
      · rw [hrest, countOf_cons] at ih
        rw [h, countOf_cons, List.count_cons, ← ih]
        by_cases hx : name = x
        · simp [hx]
        · simp [hx, Ne.symm hx]
      · have hnew : x ∉ xs := by
          rw [← mem_map_fst_runs, List.mem_map]
          rintro ⟨entry, hentry, heq⟩
          rw [h, List.pairwise_cons] at hpairwise
          have := hpairwise.1 entry hentry
          rw [heq] at this
          exact String.lt_irrefl _ this
        rw [h, countOf_cons, ih, List.count_cons]
        by_cases hx : name = x
        · rw [if_pos hx, hx, List.count_eq_zero_of_not_mem hnew, beq_self_eq_true, if_pos rfl]
        · rw [if_neg hx, beq_eq_false_iff_ne.2 (Ne.symm hx)]
          rfl

/-- A list in which every name stands once says of each what its entry says. -/
theorem lookup_eq_some_of_mem (hdistinct : counts.Pairwise fun a b => a.1 ≠ b.1)
    (h : (name, n) ∈ counts) : counts.lookup name = some n := by
  induction counts with
  | nil => cases h
  | cons entry counts ih =>
      obtain ⟨hne, hrest⟩ := List.pairwise_cons.1 hdistinct
      rw [List.lookup_cons]
      rcases List.mem_cons.1 h with rfl | h
      · rw [beq_self_eq_true]
      · rw [beq_eq_false_iff_ne.2 (hne _ h).symm]
        exact ih hrest h

theorem mem_of_lookup_eq_some (h : counts.lookup name = some n) : (name, n) ∈ counts := by
  obtain ⟨before, after, rfl, -⟩ := List.lookup_eq_some_iff.1 h
  exact List.mem_append_right _ List.mem_cons_self

theorem countOf_perm (hdistinct : counts.Pairwise fun a b => a.1 ≠ b.1)
    (h : counts.Perm counts') (name : String) : countOf counts name = countOf counts' name := by
  have hdistinct' := (h.pairwise_iff fun hne => hne.symm).1 hdistinct
  refine congrArg (Option.getD · 0) (Option.ext fun n => ?_)
  constructor
  · exact fun hn => lookup_eq_some_of_mem hdistinct' (h.mem_iff.1 (mem_of_lookup_eq_some hn))
  · exact fun hn => lookup_eq_some_of_mem hdistinct (h.mem_iff.2 (mem_of_lookup_eq_some hn))

/-! ### Tallies -/

theorem pairwise_mergeSort_le (names : List String) :
    (names.mergeSort fun a b => decide (a ≤ b)).Pairwise (· ≤ ·) := by
  have htrans (a b c : String) (hab : decide (a ≤ b) = true) (hbc : decide (b ≤ c) = true) :
      decide (a ≤ c) = true :=
    decide_eq_true (String.le_trans (of_decide_eq_true hab) (of_decide_eq_true hbc))
  have htotal (a b : String) : (decide (a ≤ b) || decide (b ≤ a)) = true := by
    simpa using String.le_total a b
  exact (List.pairwise_mergeSort htrans htotal names).imp of_decide_eq_true

/-- A tally lists names in increasing order. -/
theorem pairwise_tally (names : List String) : (tally names).Pairwise fun a b => a.1 < b.1 :=
  pairwise_runs (pairwise_mergeSort_le names)

/-- A tally lists the names that occur. -/
theorem mem_map_fst_tally : name ∈ (tally names).map Prod.fst ↔ name ∈ names := by
  rw [tally, mem_map_fst_runs, (List.mergeSort_perm names _).mem_iff]

/-- A tally counts the occurrences of each name. -/
theorem countOf_tally (names : List String) (name : String) :
    countOf (tally names) name = names.count name := by
  rw [tally, countOf_runs (pairwise_mergeSort_le names), (List.mergeSort_perm names _).count_eq]

theorem pairwise_ne_tally (names : List String) :
    (tally names).Pairwise fun a b => a.1 ≠ b.1 := by
  refine (pairwise_tally names).imp fun {a b} hlt heq => ?_
  rw [heq] at hlt
  exact String.lt_irrefl _ hlt

theorem mem_distinct : name ∈ distinct names ↔ name ∈ names := mem_map_fst_tally

theorem nodup_distinct (names : List String) : (distinct names).Nodup :=
  List.pairwise_map.2 (pairwise_ne_tally names)

/-- A ranking that leaves nothing out says of every name what the tally says. -/
theorem countOf_rank (h : (tally names).length ≤ n) (name : String) :
    countOf (rank (tally names) n) name = names.count name := by
  have hperm := List.mergeSort_perm (tally names) ranksBefore
  rw [rank, List.take_of_length_le (by rw [hperm.length_eq]; exact h), ← countOf_tally]
  exact (countOf_perm (pairwise_ne_tally names) hperm.symm name).symm

end CodeParts.Names
