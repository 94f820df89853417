import CodeParts.Proofs.Split.Limits
import CodeParts.Proofs.Split.Window

/-!
# When a part goes past its limits

A boundary may lie behind the tentative cut for two reasons: the end of an immediately
invoked function was worth the wait, or nothing better was found than the limits themselves.
The second should not happen while a line ends within the limits, and mostly does not.

The one line end that the last resort passes over is a newline at the very start of the part
(`newlineCandidate_cases`). The strict search still finds that newline, which stands outside
all braces of a window that begins with it, unless the window begins behind it. So it is
known exactly when a part with a line end within its limits keeps to them
(`overshoot_iff`).
-/

namespace CodeParts.Split

open Lexer

variable {src : Source} {policy : Policy} {start t a b : Nat}

/-! ### The search for the end of a call -/

/-- How far a policy looks for the end of an immediately invoked function. -/
def Policy.reach (src : Source) (policy : Policy) (t : Nat) : Nat :=
  match policy.strategy with
  | .strict => t
  | .constructPriority => src.size
  | .hybrid => min (t + graceDistance t policy.graceRatio) src.size

/-- A terminator is found just if the common part of all terminators stands in the window. -/
theorem isSome_firstTerminator_iff :
    (firstTerminator src a b).isSome = true ↔
      ∃ i, a ≤ i ∧ i + terminatorCore.length ≤ b ∧ src.literalAt terminatorCore i = true := by
  constructor
  · intro h
    obtain ⟨o, ho⟩ := Option.isSome_iff_exists.1 h
    obtain ⟨token, htoken, -, hle, -, -⟩ := firstTerminator_eq_some_iff.1 ho
    have hat : (terminatorAt src b o.start).isSome = true := by simp [htoken]
    obtain ⟨i, hi, -, hcore, hstop⟩ := exists_core_of_terminatorAt hat
    exact ⟨i, Nat.le_trans hle hi, hstop, hcore⟩
  · rintro ⟨i, hai, hib, hcore⟩
    have hlength : 0 < terminatorCore.length := by decide
    cases hfirst : firstTerminator src a b with
    | some o => rfl
    | none =>
        have hat := isSome_terminatorAt hcore hib
        rw [firstTerminator_eq_none_iff.1 hfirst i hai (by omega)] at hat
        cases hat

/-! ### What the searches find -/

/-- A newline at the start of a window is a line end outside all braces. -/
theorem lastDepthZeroLineEnd_ne_none (hnl : src.newlineAt a = true) (hab : a < b) :
    lastDepthZeroLineEnd src a b ≠ none := by
  have hline : src.DepthZeroLineEnd a .initial (a + 1) := by
    have hscan : src.scan a (a + 1) .initial = .initial := by
      rw [Source.scan, Source.slice_of_charAt (Nat.lt_succ_self a)
        (Source.newlineAt_eq_true.1 hnl), Source.slice_self]
      rfl
    exact ⟨Nat.lt_succ_self a, hnl, by rw [hscan]; rfl, by rw [hscan]; rfl⟩
  obtain ⟨o, ho, -⟩ := Source.le_lastLineEnd hline hab
  rw [lastDepthZeroLineEnd, ho]
  simp

theorem reason_newlineCandidate_ne_iff (ht : t ≤ src.size) :
    (newlineCandidate src start t).reason ≠ .hardCut ↔
      ∃ j, start < j ∧ j < t ∧ src.newlineAt j = true := by
  rcases newlineCandidate_cases start ht with hline | ⟨hcut, hnone⟩
  · have hlt := hline.lt_offset
    have hle := hline.offset_le
    exact iff_of_true hline.reason_ne ⟨_, by omega, by omega, hline.newlineAt⟩
  · rw [hcut]
    refine iff_of_false (fun h => h rfl) ?_
    rintro ⟨j, hj, hjt, hnl⟩
    rw [hnone j hj hjt] at hnl
    cases hnl

/-- The strict search sees a newline at the start as long as its window begins there. -/
theorem reason_strictCandidate_ne_iff (ht : t ≤ src.size)
    (hnl : ∃ j, start ≤ j ∧ j < t ∧ src.newlineAt j = true) :
    (strictCandidate src start t).reason ≠ .hardCut ↔
      (∃ j, start < j ∧ j < t ∧ src.newlineAt j = true) ∨ t ≤ start + depthZeroLookback := by
  rcases strictCandidate_cases start ht with ⟨hline, hfirst⟩ | ⟨hcut, hnone, hdepth⟩
  · refine iff_of_true hline.reason_ne ?_
    have hlt := hline.lt_offset
    have hle := hline.offset_le
    rcases Nat.eq_or_lt_of_le hlt with heq | hbehind
    · exact .inr (hfirst heq.symm)
    · exact .inl ⟨_, by omega, by omega, hline.newlineAt⟩
  · rw [hcut]
    refine iff_of_false (fun h => h rfl) ?_
    rintro (⟨j, hj, hjt, hat⟩ | hwindow)
    · rw [hnone j hj hjt] at hat
      cases hat
    · obtain ⟨j, hj, hjt, hat⟩ := hnl
      rcases Nat.eq_or_lt_of_le hj with rfl | hbehind
      · rw [show max start (t - depthZeroLookback) = start by omega] at hdepth
        exact lastDepthZeroLineEnd_ne_none hat hjt hdepth
      · rw [hnone j hbehind hjt] at hat
        cases hat

theorem reason_terminatorCandidate_ne_iff (ht : t ≤ src.size) (reach : Nat) :
    (terminatorCandidate src start t reach).reason ≠ .hardCut ↔
      (∃ j, start < j ∧ j < t ∧ src.newlineAt j = true) ∨
        ∃ i, t ≤ i ∧ i + terminatorCore.length ≤ reach ∧
          src.literalAt terminatorCore i = true := by
  rw [← isSome_firstTerminator_iff, ← reason_newlineCandidate_ne_iff ht, terminatorCandidate]
  cases firstTerminator src t reach with
  | some o => simp
  | none => simp

/-- What keeps the search of a strategy from coming back with nothing, if a line ends within
the limits. -/
theorem reason_searchCandidate_ne_iff (ht : t ≤ src.size)
    (hnl : ∃ j, start ≤ j ∧ j < t ∧ src.newlineAt j = true) :
    (searchCandidate src policy start t).reason ≠ .hardCut ↔
      (∃ j, start < j ∧ j < t ∧ src.newlineAt j = true) ∨
        (policy.strategy = .strict ∧ t ≤ start + depthZeroLookback) ∨
        ∃ i, t ≤ i ∧ i + terminatorCore.length ≤ policy.reach src t ∧
          src.literalAt terminatorCore i = true := by
  unfold searchCandidate Policy.reach
  cases policy.strategy with
  | strict =>
      have hnone : ¬ ∃ i, t ≤ i ∧ i + terminatorCore.length ≤ t ∧
          src.literalAt terminatorCore i = true := by
        rintro ⟨i, hi, hstop, -⟩
        have hlength : 0 < terminatorCore.length := by decide
        omega
      simp [reason_strictCandidate_ne_iff ht hnl, hnone]
  | constructPriority => simp [reason_terminatorCandidate_ne_iff ht]
  | hybrid => simp [reason_terminatorCandidate_ne_iff ht]

/-- A search that comes back with something has found the end of a call or of a line. -/
theorem searchCandidate_cases (policy : Policy) (ht : t ≤ src.size) :
    (searchCandidate src policy start t).reason = .iifeTerminator ∨
      (searchCandidate src policy start t).EndsLine src start t ∨
      (searchCandidate src policy start t).reason = .hardCut := by
  have hlast : (newlineCandidate src start t).EndsLine src start t ∨
      (newlineCandidate src start t).reason = .hardCut := by
    rcases newlineCandidate_cases start ht with hline | ⟨hcut, -⟩
    · exact .inl { hline with lt_offset := Nat.lt_of_succ_lt hline.lt_offset }
    · exact .inr (congrArg Candidate.reason hcut)
  have hforward (reach : Nat) : (terminatorCandidate src start t reach).reason = .iifeTerminator ∨
      (terminatorCandidate src start t reach).EndsLine src start t ∨
      (terminatorCandidate src start t reach).reason = .hardCut := by
    unfold terminatorCandidate
    cases firstTerminator src t reach with
    | some o => exact .inl rfl
    | none => exact .inr hlast
  unfold searchCandidate
  cases policy.strategy with
  | strict =>
      rcases strictCandidate_cases start ht with ⟨hline, -⟩ | ⟨hcut, -⟩
      · exact .inr (.inl hline)
      · exact .inr (.inr (congrArg Candidate.reason hcut))
  | constructPriority => exact hforward src.size
  | hybrid => exact hforward _

/-! ### The boundary -/

/-- A boundary that was not cut for want of anything better lies behind the tentative cut only
to take in the end of an immediately invoked function. -/
theorem selectBoundary_cut_le_tentativeCut (before : State)
    (hreason : (selectBoundary src policy start before).reason ≠ .hardCut)
    (hcall : (selectBoundary src policy start before).reason ≠ .iifeTerminator) :
    (selectBoundary src policy start before).cut ≤ tentativeCut src policy.limits start := by
  have hle := tentativeCut_le src policy.limits start
  by_cases hend : src.size ≤ tentativeCut src policy.limits start
  · exact Nat.le_trans selectBoundary_cut_le hend
  · simp only [selectBoundary, Boundary.reason, candidateAt, if_neg hend] at hreason hcall ⊢
    rcases searchCandidate_cases policy hle with hfound | hline | hcut
    · exact absurd hfound hcall
    · rw [snapToLineEnd_of_newlineAt hline.lt_offset hline.newlineAt]
      exact hline.offset_le
    · exact absurd hcut hreason

/-- A boundary is no hard cut, and behind the tentative cut only for the end of a call, just
if a line ends within the limits behind the first character, or the text ends there, or the
strict window begins at the start, or the end of a call is within reach. -/
theorem overshoot_iff (before : State)
    (hnl : ∃ j, start ≤ j ∧ j < tentativeCut src policy.limits start ∧
      src.newlineAt j = true) :
    ((selectBoundary src policy start before).reason ≠ .hardCut ∧
        ((selectBoundary src policy start before).reason ≠ .iifeTerminator →
          (selectBoundary src policy start before).cut ≤
            tentativeCut src policy.limits start)) ↔
      (∃ j, start < j ∧ j < tentativeCut src policy.limits start ∧ src.newlineAt j = true) ∨
        src.size ≤ tentativeCut src policy.limits start ∨
        (policy.strategy = .strict ∧
          tentativeCut src policy.limits start ≤ start + depthZeroLookback) ∨
        ∃ i, tentativeCut src policy.limits start ≤ i ∧
          i + terminatorCore.length ≤
            policy.reach src (tentativeCut src policy.limits start) ∧
          src.literalAt terminatorCore i = true := by
  have hle := tentativeCut_le src policy.limits start
  rw [and_iff_left_of_imp fun hreason hcall =>
    selectBoundary_cut_le_tentativeCut before hreason hcall]
  by_cases hend : src.size ≤ tentativeCut src policy.limits start
  · simp [selectBoundary, Boundary.reason, candidateAt, hend]
  · simp only [selectBoundary, Boundary.reason, candidateAt, if_neg hend]
    rw [reason_searchCandidate_ne_iff hle hnl]
    simp [hend]

/-- Two lines, the second too long: the boundary is the end of the first. -/
theorem overshoot_iff_two_lines :
    (∃ j, 0 ≤ j ∧ j < tentativeCut (Source.ofString "a\nlonger\n") ⟨4, 9⟩ 0 ∧
      (Source.ofString "a\nlonger\n").newlineAt j = true) ∧
      (selectBoundary (Source.ofString "a\nlonger\n") ⟨⟨4, 9⟩, .constructPriority, 0.3⟩ 0
        .initial).cut ≤ 4 := by
  have hnl : ∃ j, 0 ≤ j ∧ j < tentativeCut (Source.ofString "a\nlonger\n") ⟨4, 9⟩ 0 ∧
      (Source.ofString "a\nlonger\n").newlineAt j = true :=
    ⟨1, by decide, by decide +kernel, by decide +kernel⟩
  have hcut : (selectBoundary (Source.ofString "a\nlonger\n")
      ⟨⟨4, 9⟩, .constructPriority, 0.3⟩ 0 .initial).reason ≠ .hardCut ∧ _ :=
    (overshoot_iff .initial hnl).2 (.inl ⟨1, by decide, by decide +kernel, by decide +kernel⟩)
  exact ⟨hnl, Nat.le_trans (hcut.2 (by decide +kernel)) (by decide +kernel)⟩

/-- A newline that begins the part is the only one within the limits, and the part goes on to
the end of the next line. -/
theorem selectBoundary_empty_line :
    0 < tentativeCut (Source.ofString "\nabcdef\n") ⟨3, 9⟩ 0 ∧
      (Source.ofString "\nabcdef\n").newlineAt 0 = true ∧
      (selectBoundary (Source.ofString "\nabcdef\n") ⟨⟨3, 9⟩, .constructPriority, 0.3⟩ 0
        .initial).reason = .hardCut ∧
      tentativeCut (Source.ofString "\nabcdef\n") ⟨3, 9⟩ 0 = 3 ∧
      (selectBoundary (Source.ofString "\nabcdef\n") ⟨⟨3, 9⟩, .constructPriority, 0.3⟩ 0
        .initial).cut = 8 := by
  refine ⟨?_, ?_, ?_, ?_, ?_⟩ <;> decide +kernel

end CodeParts.Split
