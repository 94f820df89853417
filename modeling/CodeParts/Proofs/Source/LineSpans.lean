import CodeParts.Proofs.Source.Lines

/-!
# Lines as spans of offsets

Line `l` of a text is the span from `lineStart l` to `lineStart (l + 1)`. The lines are
consecutive and none of them is empty, so an offset of the text belongs to exactly one of
them, and that is the one that `lineOf` gives (`lineOf_eq_iff`). What lies between two line
breaks is therefore a range of whole lines, and a span that ends elsewhere is what such a
range begins with (`linesText_of_span`).
-/

namespace CodeParts.Source

variable {src : Source} {i j l : Nat}

/-! ### The line of an offset -/

theorem lineOf_mono (src : Source) (h : i ≤ j) : src.lineOf i ≤ src.lineOf j := by
  rw [src.lineOf_eq_add_count h]
  exact Nat.le_add_right _ _

/-- A line start begins the line after that of the character before it. -/
theorem lineOf_of_lineStartsAt (hi : 0 < i) (h : src.lineStartsAt i = true) :
    src.lineOf i = src.lineOf (i - 1) + 1 := by
  have hnl := newlineAt_of_lineStartsAt hi h
  have hmem : '\n' ∈ src.slice (i - 1) i :=
    newline_mem_slice_iff.2 ⟨i - 1, Nat.le_refl _, Nat.sub_one_lt_of_lt hi, hnl⟩
  have hcount := List.count_pos_iff.2 hmem
  have hadd := src.lineOf_eq_add_count (Nat.sub_le i 1)
  have hle := src.lineOf_succ_le (i - 1)
  rw [Nat.sub_add_cancel hi] at hle
  omega

/-- The line of an offset is the last one that starts at or before it. -/
theorem lineOf_spec (src : Source) (i : Nat) :
    (∃ start, src.lineStarts[src.lineOf i]? = some start ∧ start ≤ i) ∧
      ∀ start, src.lineStarts[src.lineOf i + 1]? = some start → i < start := by
  obtain ⟨hle, hlow, hhigh⟩ := partitionPoint_spec (src.partitioned_lineStarts i)
  have hzero : src.lineStarts[0]? = some 0 := by
    rw [← Array.getElem?_toList, lineStarts_toList, List.getElem?_cons_zero]
  unfold lineOf
  generalize partitionPoint (fun start => decide (start ≤ i)) src.lineStarts = t at hle hlow hhigh ⊢
  -- The first line starts at zero, so there is a line that starts at or before the offset.
  have hpos : 0 < t := by
    refine Nat.pos_of_ne_zero fun ht => ?_
    have := hhigh 0 0 (Nat.le_of_eq ht) hzero
    simp at this
  have hget : src.lineStarts[t - 1]? = some src.lineStarts[t - 1] :=
    Array.getElem?_eq_getElem (by omega)
  rw [Nat.sub_add_cancel hpos]
  refine ⟨⟨_, hget, ?_⟩, fun start hstart => ?_⟩
  · simpa using hlow (t - 1) _ (Nat.sub_one_lt_of_lt hpos) hget
  · simpa using hhigh t start (Nat.le_refl t) hstart

theorem lineStart_lineOf_le (src : Source) (i : Nat) : src.lineStart (src.lineOf i) ≤ i := by
  obtain ⟨⟨start, hstart, hle⟩, -⟩ := src.lineOf_spec i
  rw [lineStart, hstart]
  exact hle

theorem lt_lineStart_lineOf_succ (h : i < src.size) : i < src.lineStart (src.lineOf i + 1) := by
  unfold lineStart
  cases hnext : src.lineStarts[src.lineOf i + 1]? with
  | none => exact h
  | some start => exact (src.lineOf_spec i).2 start hnext

/-! ### Where lines start -/

theorem lineStart_mono (src : Source) (h : i ≤ j) : src.lineStart i ≤ src.lineStart j := by
  obtain ⟨between, hbetween⟩ := List.take_prefix_take_left (l := splitLines src.toList) h
  rw [lineStart_eq, lineStart_eq, ← hbetween, List.flatten_append, List.length_append]
  exact Nat.le_add_right _ _

theorem lineStart_le_size (src : Source) (l : Nat) : src.lineStart l ≤ src.size := by
  have hall := congrArg (List.length ∘ List.flatten)
    (List.take_append_drop l (splitLines src.toList))
  simp only [Function.comp_apply, List.flatten_append, List.length_append, flatten_splitLines,
    length_toList] at hall
  rw [lineStart_eq]
  omega

theorem lineStart_lineCount (src : Source) : src.lineStart src.lineCount = src.size := by
  rw [lineStart_eq, lineCount_eq, List.take_length, flatten_splitLines, length_toList]

/-- No line is empty. -/
theorem lineStart_lt_succ (h : l < src.lineCount) : src.lineStart l < src.lineStart (l + 1) := by
  rw [lineCount_eq] at h
  have hline : (splitLines src.toList)[l] ≠ [] :=
    ne_nil_of_mem_splitLines (List.getElem_mem h)
  have hpos := List.length_pos_iff.2 hline
  rw [lineStart_eq, lineStart_eq, List.take_succ_eq_append_getElem h, List.flatten_append,
    List.flatten_singleton, List.length_append]
  omega

/-- An offset belongs to the line in whose span it lies. -/
theorem lineOf_eq_iff (h : i < src.size) :
    src.lineOf i = l ↔ src.lineStart l ≤ i ∧ i < src.lineStart (l + 1) := by
  have hle := src.lineStart_lineOf_le i
  have hlt := lt_lineStart_lineOf_succ h
  constructor
  · rintro rfl
    exact ⟨hle, hlt⟩
  · rintro ⟨hstart, hstop⟩
    rcases Nat.lt_trichotomy (src.lineOf i) l with hless | heq | hgreater
    · have := src.lineStart_mono (show src.lineOf i + 1 ≤ l from hless)
      omega
    · exact heq
    · have := src.lineStart_mono (show l + 1 ≤ src.lineOf i from hgreater)
      omega

theorem lineOf_lineStart (h : l < src.lineCount) : src.lineOf (src.lineStart l) = l := by
  have hlt := lineStart_lt_succ h
  have hsize := src.lineStart_le_size (l + 1)
  exact (lineOf_eq_iff (by omega)).2 ⟨Nat.le_refl _, hlt⟩

/-- The character before the start of the next line belongs to this one. -/
theorem lineOf_lineStart_succ_pred (h : l < src.lineCount) :
    src.lineOf (src.lineStart (l + 1) - 1) = l := by
  have hlt := lineStart_lt_succ h
  have hsize := src.lineStart_le_size (l + 1)
  exact (lineOf_eq_iff (by omega)).2 ⟨by omega, by omega⟩

theorem lineStartsAt_lineStart (h : l < src.lineCount) :
    src.lineStartsAt (src.lineStart l) = true := by
  rcases Nat.eq_zero_or_pos (src.lineStart l) with hzero | hpos
  · rw [hzero]
    rfl
  · have hline := lineOf_lineStart h
    have hpred := src.lineStart_lineOf_le (src.lineStart l - 1)
    rw [lineStartsAt, Bool.or_eq_true]
    refine .inr (Bool.of_not_eq_false fun hnl => ?_)
    -- Without a newline before it, the character before it would be in the same line.
    have hsame : src.lineOf (src.lineStart l) = src.lineOf (src.lineStart l - 1) :=
      (lineOf_eq_lineOf_iff (Nat.sub_le _ 1)).2 fun j hj hlt => by
        rwa [show j = src.lineStart l - 1 by omega]
    rw [← hsame, hline] at hpred
    omega

/-- A line start is where its line starts. -/
theorem lineStart_lineOf (h : src.lineStartsAt i = true) : src.lineStart (src.lineOf i) = i := by
  refine Nat.le_antisymm (src.lineStart_lineOf_le i) (Nat.le_of_not_lt fun hlt => ?_)
  have hpos : 0 < i := Nat.zero_lt_of_lt hlt
  have hnl := lt_size_of_newlineAt (newlineAt_of_lineStartsAt hpos h)
  have hpred := lt_lineStart_lineOf_succ hnl
  rw [← lineOf_of_lineStartsAt hpos h] at hpred
  omega

/-! ### The number of lines -/

/-- The last character of a text belongs to its last line. -/
theorem lineCount_eq_lineOf (h : 0 < src.size) :
    src.lineCount = src.lineOf (src.size - 1) + 1 := by
  have hpos : 0 < src.lineCount := by
    rw [← length_toList, List.length_pos_iff] at h
    rw [lineCount_eq, List.length_pos_iff]
    exact fun hnil => h (splitLines_eq_nil_iff.1 hnil)
  have hlast := lineOf_lineStart_succ_pred (Nat.sub_one_lt_of_lt hpos)
  rw [Nat.sub_add_cancel hpos, lineStart_lineCount] at hlast
  omega

theorem lineOf_lt_lineCount (h : i < src.size) : src.lineOf i < src.lineCount := by
  have := src.lineOf_mono (show i ≤ src.size - 1 by omega)
  rw [lineCount_eq_lineOf (by omega)]
  omega

/-! ### Lines of a span -/

/-- What begins with a line is what its lines begin with, and behind it there is no newline in
them but a last one. -/
theorem linesText_of_span {a b : Nat} (ha : src.lineStartsAt a = true) (hab : a < b)
    (hb : b ≤ src.size) :
    ∃ rest, src.linesText (src.lineOf a) (src.lineOf (b - 1)) = src.slice a b ++ rest ∧
      '\n' ∉ rest.dropLast := by
  have hline := lineOf_lt_lineCount (show b - 1 < src.size by omega)
  have hend := lt_lineStart_lineOf_succ (show b - 1 < src.size by omega)
  have hlast := lineOf_lineStart_succ_pred hline
  have hsize := src.lineStart_le_size (src.lineOf (b - 1) + 1)
  rw [linesText, lineStart_lineOf ha]
  generalize src.lineStart (src.lineOf (b - 1) + 1) = stop at hend hlast hsize ⊢
  refine ⟨src.slice b stop, (src.slice_append_slice (Nat.le_of_lt hab) (by omega)).symm, ?_⟩
  rw [dropLast_slice hsize, newline_mem_slice_iff]
  rintro ⟨j, hbj, hj, hnl⟩
  have hnone := (lineOf_eq_lineOf_iff (show b - 1 ≤ stop - 1 by omega)).1 hlast j (by omega) hj
  rw [hnl] at hnone
  cases hnone

end CodeParts.Source
