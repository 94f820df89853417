import CodeParts.Proofs.Source.LineSpans
import CodeParts.Proofs.Split.Limits
import CodeParts.Proofs.Split.Snapping

/-!
# Progress of a run

`selectBoundary` does not check its policy. The limits may be zero, so that the tentative cut is
the start itself, and the grace ratio may be no number at all. A boundary takes a whole step
nevertheless: it ends at a line end behind its start, because that is where every candidate is
moved, and from behind the text it goes to the end and stays there (`progress_of_boundaries`).

Each step takes a run into a later line (`lineOf_lt_lineOf_selectBoundary_cut`), so a run needs
no more steps than there are lines from the one in which it begins (`nthBoundary_cut_eq_size`).
-/

namespace CodeParts.Split

open Lexer

variable {src : Source} {policy : Policy} {start n : Nat} {before : State}

/-! ### One boundary -/

theorem lineEnd_selectBoundary_cut (h : start < src.size) :
    src.LineEnd (selectBoundary src policy start before).cut := by
  have hlt := lt_selectBoundary_cut policy before h
  exact (Source.lineEnd_iff_lineBreak (Nat.zero_lt_of_lt hlt)).2 lineBreak_selectBoundary_cut

/-- Behind the text the limits reach its end. -/
theorem candidateAt_of_size_le (h : src.size ≤ start) :
    candidateAt src policy start (tentativeCut src policy.limits start) =
      ⟨src.size, .endOfText⟩ := by
  have := min_le_tentativeCut src policy.limits start
  rw [candidateAt, if_pos (by omega)]

/-- From behind the text a boundary goes to its end, and nothing is left to scan. -/
theorem selectBoundary_of_start_le (policy : Policy) (before : State) (h : src.size ≤ start) :
    (selectBoundary src policy start before).cut = src.size ∧
      (selectBoundary src policy start before).reason = .endOfText ∧
      (selectBoundary src policy start before).after = before := by
  have hcut : (selectBoundary src policy start before).cut = src.size :=
    snapToLineEnd_of_size_le h _
  refine ⟨hcut, congrArg Candidate.reason (candidateAt_of_size_le h), ?_⟩
  have hafter : (selectBoundary src policy start before).after =
      src.scan start (selectBoundary src policy start before).cut before := rfl
  rw [hafter, hcut, Source.scan, Source.slice_eq_nil (by omega)]
  rfl

/-- A boundary before the end of the text leads into a later line. -/
theorem lineOf_lt_lineOf_selectBoundary_cut
    (h : (selectBoundary src policy start before).cut < src.size) :
    src.lineOf start < src.lineOf (selectBoundary src policy start before).cut := by
  have hstart : start < src.size := by
    refine Nat.lt_of_not_le fun hle => ?_
    have hcut := (selectBoundary_of_start_le policy before hle).1
    omega
  have hlt := lt_selectBoundary_cut policy before hstart
  have hbreak : src.LineBreak (selectBoundary src policy start before).cut :=
    lineBreak_selectBoundary_cut
  have hline := hbreak.resolve_right (Nat.ne_of_lt h)
  rw [Source.lineOf_of_lineStartsAt (Nat.zero_lt_of_lt hlt) hline]
  exact Nat.lt_succ_of_le (src.lineOf_mono (Nat.le_sub_one_of_lt hlt))

/-! ### The run -/

/-- After `n + 1` boundaries a run has gone on by as many lines, unless it is at the end. -/
theorem le_lineOf_nthBoundary_cut
    (h : (nthBoundary src policy start before n).cut < src.size) :
    src.lineOf start + (n + 1) ≤ src.lineOf (nthBoundary src policy start before n).cut := by
  induction n with
  | zero => exact lineOf_lt_lineOf_selectBoundary_cut h
  | succ n ih =>
      have hnext := lineOf_lt_lineOf_selectBoundary_cut h
      -- A run that is at the end stays there, so it was not there before this boundary.
      have hprev : (nthBoundary src policy start before n).cut < src.size := by
        refine Nat.lt_of_not_le fun hle => ?_
        have hend : (nthBoundary src policy start before (n + 1)).cut = src.size :=
          (selectBoundary_of_start_le policy _ hle).1
        omega
      have hlines := ih hprev
      have hcut : (nthBoundary src policy start before (n + 1)).cut =
        (selectBoundary src policy (nthBoundary src policy start before n).cut
          (nthBoundary src policy start before n).after).cut := rfl
      rw [hcut]
      omega

/-- A run is at the end after as many boundaries as there are lines from its start on. -/
theorem nthBoundary_cut_eq_size (h : src.lineCount ≤ src.lineOf start + (n + 1)) :
    (nthBoundary src policy start before n).cut = src.size := by
  have hle : (nthBoundary src policy start before n).cut ≤ src.size := nthBoundary_cut_le n
  refine Nat.le_antisymm hle (Nat.le_of_not_lt fun hlt => ?_)
  have hlines := le_lineOf_nthBoundary_cut hlt
  have hcount := Source.lineOf_lt_lineCount hlt
  omega

/-- Every boundary makes progress, whatever its policy and the state that it begins in: from
inside the text it leads to a line end behind its start, and from behind the text to the end,
with nothing scanned. So a run through a text that is not empty is at the end, and stays there,
after no more boundaries than the text has lines. -/
theorem progress_of_boundaries (src : Source) (policy : Policy) :
    (∀ start before, start < src.size →
      start < (selectBoundary src policy start before).cut ∧
        (selectBoundary src policy start before).cut ≤ src.size ∧
        src.LineEnd (selectBoundary src policy start before).cut) ∧
    (∀ start before, src.size ≤ start →
      (selectBoundary src policy start before).cut = src.size ∧
        (selectBoundary src policy start before).reason = .endOfText ∧
        (selectBoundary src policy start before).after = before) ∧
    (0 < src.size → ∀ start before, ∃ n, n + 1 ≤ src.lineCount ∧
      ∀ m, n ≤ m → (nthBoundary src policy start before m).cut = src.size) := by
  refine ⟨fun start before h => ?_, fun start before h => ?_, fun hsize start before => ?_⟩
  · exact ⟨lt_selectBoundary_cut policy before h, selectBoundary_cut_le,
      lineEnd_selectBoundary_cut h⟩
  · exact selectBoundary_of_start_le policy before h
  · have hpos : 0 < src.lineCount := Nat.zero_lt_of_lt (Source.lineOf_lt_lineCount hsize)
    refine ⟨src.lineCount - 1, by omega, fun m hm => ?_⟩
    exact nthBoundary_cut_eq_size (by omega)

/-- No characters and no lines are allowed, and the ratio is no number: from the newline that ends
the first line, from behind the text, and in a run from the start. -/
theorem progress_of_boundaries_no_limits :
    2 < (Source.ofString "ab\ncd").size ∧
      (selectBoundary (Source.ofString "ab\ncd") ⟨⟨0, 0⟩, .hybrid, 0.0 / 0.0⟩ 2 .initial).cut = 3 ∧
      (Source.ofString "ab\ncd").LineEnd 3 ∧
      (Source.ofString "ab\ncd").size ≤ 9 ∧
      (selectBoundary (Source.ofString "ab\ncd") ⟨⟨0, 0⟩, .hybrid, 0.0 / 0.0⟩ 9
        ⟨.lineComment, 4, true⟩).after = ⟨.lineComment, 4, true⟩ ∧
      ∃ n, n + 1 ≤ 2 ∧ (nthBoundary (Source.ofString "ab\ncd") ⟨⟨0, 0⟩, .hybrid, 0.0 / 0.0⟩ 0
        .initial n).cut = 5 := by
  have hstart : 2 < (Source.ofString "ab\ncd").size := by decide
  have hbehind : (Source.ofString "ab\ncd").size ≤ 9 := by decide
  have hlines : (Source.ofString "ab\ncd").lineCount = 2 := by decide +kernel
  obtain ⟨hstep, hend, hrun⟩ :=
    progress_of_boundaries (Source.ofString "ab\ncd") ⟨⟨0, 0⟩, .hybrid, 0.0 / 0.0⟩
  have hcut : (selectBoundary (Source.ofString "ab\ncd") ⟨⟨0, 0⟩, .hybrid, 0.0 / 0.0⟩ 2
      .initial).cut = 3 := by
    decide +kernel
  obtain ⟨n, hn, hstay⟩ := hrun (by decide) 0 .initial
  rw [hlines] at hn
  exact ⟨hstart, hcut, hcut ▸ (hstep 2 .initial hstart).2.2, hbehind,
    (hend 9 ⟨.lineComment, 4, true⟩ hbehind).2.2, n, hn, hstay n (Nat.le_refl n)⟩

end CodeParts.Split
