import CodeParts.Proofs.Names.Lookup

/-!
# The most frequent names

Names are ranked by their counts, and names with the same count by their code points. No two
entries of a count are equal in both, so the ranking is strict (`pairwise_outranks`) and does
not depend on the order in which the counts arrive (`rank_eq_of_listsCounts`). What is listed
are the names that outrank all others (`ranking_of_text`).
-/

namespace CodeParts.Names

variable {words : List String} {counts counts' : List (String × Nat)} {a b c : String × Nat}
  {n : Nat}

/-! ### The order of rank -/

/-- An entry comes before another one: it has the larger count, or the same and the lesser
name. -/
def Outranks (a b : String × Nat) : Prop := b.2 < a.2 ∨ a.2 = b.2 ∧ a.1 < b.1

theorem ranksBefore_iff : ranksBefore a b = true ↔ b.2 < a.2 ∨ a.2 = b.2 ∧ a.1 ≤ b.1 := by
  simp [ranksBefore]

theorem ranksBefore_trans (hab : ranksBefore a b = true) (hbc : ranksBefore b c = true) :
    ranksBefore a c = true := by
  rw [ranksBefore_iff] at *
  rcases hab with hab | ⟨hab, hname⟩ <;> rcases hbc with hbc | ⟨hbc, hname'⟩
  · exact .inl (Nat.lt_trans hbc hab)
  · exact .inl (hbc ▸ hab)
  · exact .inl (hab ▸ hbc)
  · exact .inr ⟨hab.trans hbc, String.le_trans hname hname'⟩

theorem ranksBefore_total (a b : String × Nat) : (ranksBefore a b || ranksBefore b a) = true := by
  rw [Bool.or_eq_true, ranksBefore_iff, ranksBefore_iff]
  rcases Nat.lt_trichotomy a.2 b.2 with hlt | heq | hlt
  · exact .inr (.inl hlt)
  · rcases String.le_total a.1 b.1 with hle | hle
    · exact .inl (.inr ⟨heq, hle⟩)
    · exact .inr (.inr ⟨heq.symm, hle⟩)
  · exact .inl (.inl hlt)

theorem ranksBefore_antisymm (hab : ranksBefore a b = true) (hba : ranksBefore b a = true) :
    a = b := by
  rw [ranksBefore_iff] at hab hba
  have hcount : a.2 = b.2 := by omega
  have hname : a.1 = b.1 := by
    refine String.le_antisymm ?_ ?_
    · exact (hab.resolve_left (by omega)).2
    · exact (hba.resolve_left (by omega)).2
  exact Prod.ext hname hcount

theorem outranks_of_ranksBefore (h : ranksBefore a b = true) (hne : a.1 ≠ b.1) :
    Outranks a b := by
  rcases ranksBefore_iff.1 h with hlt | ⟨heq, hle⟩
  · exact .inl hlt
  · exact .inr ⟨heq, Std.lt_of_le_of_ne hle hne⟩

/-! ### Rankings -/

/-- The entries are those of the counts of a list of words, in any order: each word once, with
the number of its occurrences. -/
structure ListsCounts (words : List String) (counts : List (String × Nat)) : Prop where
  nodup : (counts.map Prod.fst).Nodup
  mem_iff : ∀ x k, (x, k) ∈ counts ↔ x ∈ words ∧ k = words.count x

theorem listsCounts_tally (words : List String) : ListsCounts words (tally words) := by
  refine ⟨nodup_distinct words, fun x k => ?_⟩
  have hcount : countOf (tally words) x = words.count x := countOf_tally words x
  constructor
  · intro h
    rw [← hcount, countOf, lookup_eq_some_of_mem (pairwise_ne_tally words) h]
    exact ⟨mem_map_fst_tally.1 (List.mem_map_of_mem h), rfl⟩
  · rintro ⟨hx, rfl⟩
    obtain ⟨⟨y, k⟩, hmem, rfl⟩ := List.mem_map.1 (mem_map_fst_tally.2 hx)
    rw [← hcount, countOf, lookup_eq_some_of_mem (pairwise_ne_tally words) hmem]
    exact hmem

namespace ListsCounts

theorem perm (h : ListsCounts words counts) (h' : ListsCounts words counts') :
    counts.Perm counts' := by
  refine (List.perm_ext_iff_of_nodup h.nodup.of_map h'.nodup.of_map).2 fun ⟨x, k⟩ => ?_
  rw [h.mem_iff, h'.mem_iff]

theorem ncard_eq (h : ListsCounts words counts) : {x | x ∈ words}.ncard = counts.length := by
  rw [ncard_eq_length_distinct, distinct, List.length_map]
  exact (listsCounts_tally words).perm h |>.length_eq

end ListsCounts

theorem pairwise_ranksBefore (counts : List (String × Nat)) :
    (counts.mergeSort ranksBefore).Pairwise fun a b => ranksBefore a b = true := by
  have htrans (a b c : String × Nat) (hab : ranksBefore a b = true) (hbc : ranksBefore b c = true) :
      ranksBefore a c = true := ranksBefore_trans hab hbc
  exact List.pairwise_mergeSort htrans ranksBefore_total counts

/-- Entries with different names are ranked strictly. -/
theorem pairwise_outranks (h : (counts.map Prod.fst).Nodup) :
    (counts.mergeSort ranksBefore).Pairwise Outranks := by
  have hperm := List.mergeSort_perm counts ranksBefore
  have hne : (counts.mergeSort ranksBefore).Pairwise fun a b => a.1 ≠ b.1 :=
    List.pairwise_map.1 ((hperm.map Prod.fst).nodup_iff.2 h)
  exact ((pairwise_ranksBefore counts).and hne).imp fun h => outranks_of_ranksBefore h.1 h.2

/-- A ranking does not depend on the order in which the counts arrive. -/
theorem rank_eq_of_listsCounts (h : ListsCounts words counts) (h' : ListsCounts words counts')
    (n : Nat) : rank counts n = rank counts' n := by
  have hperm : (counts.mergeSort ranksBefore).Perm (counts'.mergeSort ranksBefore) :=
    ((List.mergeSort_perm _ _).trans (h.perm h')).trans (List.mergeSort_perm _ _).symm
  rw [rank, rank, hperm.eq_of_pairwise (fun _ _ _ _ => ranksBefore_antisymm)
    (pairwise_ranksBefore counts) (pairwise_ranksBefore counts')]

/-! ### The most frequent names -/

/-- The entries are those of the `n` most frequent words, or of all if they are fewer, in order
of rank. -/
structure ListsTop (words : List String) (n : Nat) (top : List (String × Nat)) : Prop where
  length_eq : top.length = min n {x | x ∈ words}.ncard
  counted : ∀ e ∈ top, e.1 ∈ words ∧ e.2 = words.count e.1
  ordered : top.Pairwise Outranks
  outranks : ∀ e ∈ top, ∀ x ∈ words, x ∉ top.map Prod.fst → Outranks e (x, words.count x)

theorem ListsCounts.listsTop (h : ListsCounts words counts) (n : Nat) :
    ListsTop words n (rank counts n) := by
  have hperm := List.mergeSort_perm counts ranksBefore
  have hordered := pairwise_outranks h.nodup
  have hmem {e : String × Nat} (he : e ∈ rank counts n) : e ∈ counts :=
    hperm.mem_iff.1 (List.mem_of_mem_take he)
  constructor
  case length_eq => rw [rank, List.length_take, hperm.length_eq, h.ncard_eq]
  case counted => exact fun e he => (h.mem_iff e.1 e.2).1 (hmem he)
  case ordered => exact hordered.take
  case outranks =>
    intro e he x hx hnot
    have hentry : (x, words.count x) ∈ counts.mergeSort ranksBefore :=
      hperm.mem_iff.2 ((h.mem_iff x _).2 ⟨hx, rfl⟩)
    rw [← List.take_append_drop n (counts.mergeSort ranksBefore)] at hordered hentry
    refine (List.pairwise_append.1 hordered).2.2 e he _ ((List.mem_append.1 hentry).resolve_left ?_)
    exact fun hlisted => hnot (List.mem_map_of_mem hlisted)

/-- The most frequent identifiers of a text are ranked by their exact counts and outrank all
others, whatever the order in which the counts of the text are listed; and the index of the
text has the first eighty. -/
theorem ranking_of_text (text : String) (n : Nat) :
    ListsTop (identifiers (.ofString text)) n (topIdentifiers (.ofString text) n) ∧
      (∀ counts, ListsCounts (identifiers (.ofString text)) counts →
        rank counts n = topIdentifiers (.ofString text) n) ∧
      (Index.ofSource (.ofString text)).top = topIdentifiers (.ofString text) 80 :=
  ⟨(listsCounts_tally _).listsTop n,
    fun _ h => rank_eq_of_listsCounts h (listsCounts_tally _) n, rfl⟩

/-- Three names that occur twice, of which only two fit. -/
theorem ranking_of_text_ties :
    ListsCounts (identifiers (.ofString "b c a b a c d")) [("a", 2), ("b", 2), ("c", 2), ("d", 1)] ∧
      topIdentifiers (.ofString "b c a b a c d") 2 = [("a", 2), ("b", 2)] ∧
      Outranks ("b", 2) ("c", 2) := by
  have hwords : identifiers (.ofString "b c a b a c d") = ["b", "c", "a", "b", "a", "c", "d"] := by
    decide +kernel
  have hcounts : ListsCounts (identifiers (.ofString "b c a b a c d"))
      [("a", 2), ("b", 2), ("c", 2), ("d", 1)] := by
    rw [hwords]
    refine ⟨by decide, fun x k => ⟨fun h => ?_, fun h => ?_⟩⟩
    · simp only [List.mem_cons, Prod.mk.injEq, List.not_mem_nil, or_false] at h
      rcases h with ⟨rfl, rfl⟩ | ⟨rfl, rfl⟩ | ⟨rfl, rfl⟩ | ⟨rfl, rfl⟩ <;> decide
    · obtain ⟨hx, rfl⟩ := h
      simp only [List.mem_cons, List.not_mem_nil, or_false] at hx
      rcases hx with rfl | rfl | rfl | rfl | rfl | rfl | rfl <;> decide
  obtain ⟨htop, horder, -⟩ := ranking_of_text "b c a b a c d" 2
  have hlist : topIdentifiers (.ofString "b c a b a c d") 2 = [("a", 2), ("b", 2)] := by
    rw [← horder _ hcounts, rank, List.mergeSort_of_pairwise (by decide)]
    rfl
  rw [hlist, hwords] at htop
  exact ⟨hcounts, hlist, htop.outranks ("b", 2) (by decide) "c" (by decide) (by decide)⟩

end CodeParts.Names
