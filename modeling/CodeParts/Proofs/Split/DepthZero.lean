import CodeParts.Proofs.Lexer.Depth
import CodeParts.Proofs.Lexer.LineEnds
import CodeParts.Proofs.Split.Run
import CodeParts.Proofs.Split.Limits
import CodeParts.Proofs.Split.Phases

/-!
# Cuts outside all braces

The strict strategy looks for the last line end of a window that lies outside all braces, and
counts the braces of the window alone. It scans the window once, and finds what one scan for each
of its line ends would find (`lastDepthZeroLineEnd_eq_iff`). This module says what such a cut is
worth.

If the window begins where the part does, the true scan differs from that of the window by the
depth that the part begins with, and `Deeper.finish` compares the two: the part ends no deeper
than it began. A part that begins outside all braces is scanned from the very state that the
search assumes, so the search is exact, and a run that has found such cuts only has never been
inside of a brace at a cut (`depthZero_of_strict`).
-/

namespace CodeParts.Split

open Lexer

variable {src : Source} {policy : Policy} {start t : Nat} {before : State}

/-! ### The window -/

/-- The line ends of a window, as far as the text goes, spelled out. -/
theorem depthZeroLineEnds_initial (src : Source) (a b : Nat) :
    src.depthZeroLineEnds a b .initial =
      {p | a < p ∧ p ≤ min b src.size ∧ src.charAt (p - 1) = some '\n' ∧
        (src.scan a p .initial).mode = .code ∧ (src.scan a p .initial).depth = 0} := by
  refine Set.ext fun p => ⟨fun h => ?_, fun h => ?_⟩
  · obtain ⟨hb, hend⟩ := h
    have hsize := Source.lt_size_of_newlineAt hend.newlineAt
    exact ⟨hend.lt, by omega, Source.newlineAt_eq_true.1 hend.newlineAt, hend.mode_eq,
      hend.depth_eq⟩
  · obtain ⟨hlt, hle, hnl, hmode, hdepth⟩ := h
    exact ⟨by omega, hlt, Source.newlineAt_eq_true.2 hnl, hmode, hdepth⟩

/-- The search of a window finds the greatest of its offsets behind a newline to which a scan from
the beginning of the window, in the initial state, leads into code outside all braces. It finds
nothing just if there is no such offset. -/
theorem lastDepthZeroLineEnd_eq_iff (src : Source) (a b : Nat) :
    (∀ p, lastDepthZeroLineEnd src a b = some p ↔
      IsGreatest {p | a < p ∧ p ≤ min b src.size ∧ src.charAt (p - 1) = some '\n' ∧
        (src.scan a p .initial).mode = .code ∧ (src.scan a p .initial).depth = 0} p) ∧
    (lastDepthZeroLineEnd src a b = none ↔
      ¬ ∃ p, a < p ∧ p ≤ min b src.size ∧ src.charAt (p - 1) = some '\n' ∧
        (src.scan a p .initial).mode = .code ∧ (src.scan a p .initial).depth = 0) := by
  rw [← depthZeroLineEnds_initial]
  refine ⟨fun p => Source.lastLineEnd_eq_some_iff, ?_⟩
  rw [lastDepthZeroLineEnd, Source.lastLineEnd_eq_none_iff, depthZeroLineEnds_initial,
    Set.eq_empty_iff_forall_notMem]
  exact not_exists.symm

example : lastDepthZeroLineEnd (Source.ofString "\x7b\n a\n b\n\x7d\n") 2 8 = some 8 ∧
    lastDepthZeroLineEnd (Source.ofString "\x7b\n a\n b\n\x7d\n") 0 8 = none := by
  decide +kernel

/-! ### One part -/

/-- With a window that begins at the start, the strict search ends outside all braces if the
window has such a line end, and at the last one; and not for that reason if it has none. -/
theorem strictCandidate_of_window (src : Source) (hwindow : t ≤ start + depthZeroLookback) :
    (∃ o, src.lastLineEnd start t .initial = some o ∧
        strictCandidate src start t = ⟨o, .depthZeroNewline⟩) ∨
      src.lastLineEnd start t .initial = none ∧
        (strictCandidate src start t).reason ≠ .depthZeroNewline := by
  have hmax : max start (t - depthZeroLookback) = start := by omega
  rw [strictCandidate, hmax, lastDepthZeroLineEnd]
  cases hlast : src.lastLineEnd start t .initial with
  | some o =>
      have hlt := (Source.lastLineEnd_eq_some hlast).2.lt
      rw [Option.filter_some, if_pos (decide_eq_true hlt)]
      exact .inl ⟨o, rfl, rfl⟩
  | none =>
      rw [Option.filter_none]
      refine .inr ⟨rfl, ?_⟩
      cases lastClosing src (max start (t - closingLookback)) t with
      | some cut => simp
      | none =>
          rcases newlineCandidate_reason src start t with hreason | hreason
          · simp [hreason]
          · simp [hreason]

/-- The same of the boundary, since the end of a line is not moved. -/
theorem selectBoundary_of_window (hstrict : policy.strategy = .strict)
    (hlimits : tentativeCut src policy.limits start < src.size)
    (hwindow : tentativeCut src policy.limits start ≤ start + depthZeroLookback)
    (before : State) :
    (∃ o, src.lastLineEnd start (tentativeCut src policy.limits start) .initial = some o ∧
        (selectBoundary src policy start before).reason = .depthZeroNewline ∧
        (selectBoundary src policy start before).cut = o) ∨
      src.lastLineEnd start (tentativeCut src policy.limits start) .initial = none ∧
        (selectBoundary src policy start before).reason ≠ .depthZeroNewline := by
  simp only [selectBoundary, Boundary.reason, candidateAt, if_neg (Nat.not_le.2 hlimits),
    searchCandidate, hstrict]
  rcases strictCandidate_of_window src hwindow with ⟨o, hlast, hcandidate⟩ | hnone
  · have hend := (Source.lastLineEnd_eq_some hlast).2
    rw [hcandidate]
    exact .inl ⟨o, hlast, rfl, snapToLineEnd_of_newlineAt hend.lt hend.newlineAt⟩
  · exact .inr hnone

/-- A line end of a window outside all its braces is, in a part that begins in code, in code and
no deeper than the beginning of the part. -/
theorem depth_le_of_depthZeroLineEnd {o : Nat} (hend : src.DepthZeroLineEnd start .initial o)
    (hmode : before.mode = .code) (hescaped : before.escaped = false) :
    (src.scan start o before).mode = .code ∧ (src.scan start o before).escaped = false ∧
      (src.scan start o before).depth ≤ before.depth := by
  have hdeeper : Deeper before.depth (src.scan start o .initial) (src.scan start o before) :=
    (deeper_initial hmode hescaped).finish (src.slice start o)
  have hflag : (src.scan start o .initial).escaped = false := by
    rw [← Bool.not_eq_true]
    intro hescaped
    obtain ⟨q, hquoted⟩ := escapedInQuotes_initial.finish (src.slice start o) hescaped
    have hcode : (finish .initial (src.slice start o)).mode = .code := hend.mode_eq
    rw [hquoted] at hcode
    cases hcode
  have hdepth := hdeeper.depth_le_add
  rw [hend.depth_eq] at hdepth
  exact ⟨hdeeper.mode_eq.trans hend.mode_eq, hdeeper.escaped_eq.trans hflag, by omega⟩

/-- A part that ends outside all braces of its window ends in code, no deeper than it began. -/
theorem depth_after_le (hstrict : policy.strategy = .strict)
    (hlimits : tentativeCut src policy.limits start < src.size)
    (hwindow : tentativeCut src policy.limits start ≤ start + depthZeroLookback)
    (hmode : before.mode = .code) (hescaped : before.escaped = false)
    (hreason : (selectBoundary src policy start before).reason = .depthZeroNewline) :
    (selectBoundary src policy start before).after.mode = .code ∧
      (selectBoundary src policy start before).after.escaped = false ∧
      (selectBoundary src policy start before).after.depth ≤ before.depth := by
  rcases selectBoundary_of_window hstrict hlimits hwindow before with
    ⟨o, hlast, -, hcut⟩ | ⟨-, hother⟩
  · have hend := (Source.lastLineEnd_eq_some hlast).2
    have hafter : (selectBoundary src policy start before).after = src.scan start o before := by
      rw [← hcut]
      rfl
    rw [hafter]
    exact depth_le_of_depthZeroLineEnd hend hmode hescaped
  · exact absurd hreason hother

/-- The state of code outside all braces. -/
theorem eq_initial {s : State} (hmode : s.mode = .code) (hescaped : s.escaped = false)
    (hdepth : s.depth = 0) : s = .initial := by
  obtain ⟨mode, depth, escaped⟩ := s
  simp only at hmode hescaped hdepth
  subst hmode hescaped hdepth
  rfl

/-- A part that begins outside all braces ends for that reason just if its limits hold a line end
outside all braces, and then at the last one. -/
theorem reason_eq_depthZeroNewline_iff (hstrict : policy.strategy = .strict)
    (hlimits : tentativeCut src policy.limits start < src.size)
    (hwindow : tentativeCut src policy.limits start ≤ start + depthZeroLookback) :
    ((selectBoundary src policy start .initial).reason = .depthZeroNewline ↔
        ∃ o, o ≤ tentativeCut src policy.limits start ∧ src.DepthZeroLineEnd start .initial o) ∧
      ((selectBoundary src policy start .initial).reason = .depthZeroNewline →
        (selectBoundary src policy start .initial).cut ≤ tentativeCut src policy.limits start ∧
          src.DepthZeroLineEnd start .initial (selectBoundary src policy start .initial).cut ∧
          ∀ o, o ≤ tentativeCut src policy.limits start → src.DepthZeroLineEnd start .initial o →
            o ≤ (selectBoundary src policy start .initial).cut) := by
  rcases selectBoundary_of_window hstrict hlimits hwindow .initial with
    ⟨p, hlast, hreason, hcut⟩ | ⟨hnone, hother⟩
  · obtain ⟨hle, hend⟩ := Source.lastLineEnd_eq_some hlast
    rw [hcut]
    refine ⟨iff_of_true hreason ⟨p, hle, hend⟩, fun _ => ⟨hle, hend, fun o ho hline => ?_⟩⟩
    obtain ⟨q, hq, hoq⟩ := Source.le_lastLineEnd hline ho
    rw [hlast, Option.some.injEq] at hq
    rwa [hq]
  · refine ⟨iff_of_false hother ?_, fun hreason => absurd hreason hother⟩
    intro h
    obtain ⟨o, ho, hline⟩ := h
    obtain ⟨q, hq, -⟩ := Source.le_lastLineEnd hline ho
    rw [hnone] at hq
    cases hq

/-! ### The run -/

/-- A part that ends outside all braces has not reached the end of the text with its limits. -/
theorem tentativeCut_lt_of_reason
    (h : (selectBoundary src policy start before).reason = .depthZeroNewline) :
    tentativeCut src policy.limits start < src.size := by
  refine Nat.lt_of_not_le fun hend => ?_
  simp only [selectBoundary, Boundary.reason, candidateAt, if_pos hend] at h
  cases h

/-- As long as every part has ended outside all braces, so has every one in truth. -/
theorem nthBoundary_before_eq_initial (hstrict : policy.strategy = .strict)
    (hchars : policy.limits.maxChars ≤ depthZeroLookback) {n : Nat}
    (h : ∀ j, j < n → (nthBoundary src policy 0 .initial j).reason = .depthZeroNewline) :
    (nthBoundary src policy 0 .initial n).before = .initial := by
  induction n with
  | zero => rfl
  | succ n ih =>
      have hbefore := ih fun j hj => h j (Nat.lt_succ_of_lt hj)
      have hreason := h n (Nat.lt_succ_self n)
      have hselect := nthBoundary_eq src policy 0 .initial n
      rw [hbefore] at hselect
      rw [hselect] at hreason
      have hwindow := tentativeCut_le_add src policy.limits
        (nthBoundary src policy 0 .initial n).start
      obtain ⟨hmode, hescaped, hdepth⟩ := depth_after_le hstrict
        (tentativeCut_lt_of_reason hreason) (by omega) rfl rfl hreason
      show (nthBoundary src policy 0 .initial n).after = .initial
      rw [hselect]
      exact eq_initial hmode hescaped (Nat.le_zero.1 hdepth)

/-- What holds of the reasons of the first boundaries of a text holds of its run. -/
theorem reason_nthBoundary_of_forall {r : CutReason} {n : Nat}
    (hn : n ≤ (boundaries src policy).length)
    (h : ∀ j b, j < n → (boundaries src policy)[j]? = some b → b.reason = r) (j : Nat)
    (hj : j < n) : (nthBoundary src policy 0 .initial j).reason = r := by
  have hget := List.getElem?_eq_getElem (Nat.lt_of_lt_of_le hj hn)
  rw [← (getElem?_boundariesFrom hget).1]
  exact h j _ hj hget

/-- The depths of a part behind cuts outside all braces, and before one. -/
theorem depth_eq_zero_of_reasons (hstrict : policy.strategy = .strict)
    (hchars : policy.limits.maxChars ≤ depthZeroLookback) {i : Nat} {p : Part}
    (hp : (assemble src (boundaries src policy))[i]? = some p) :
    ((∀ j b, j < i → (boundaries src policy)[j]? = some b → b.reason = .depthZeroNewline) →
        p.depthIn = 0) ∧
      ((∀ j b, j < i + 1 → (boundaries src policy)[j]? = some b →
          b.reason = .depthZeroNewline) → p.depthOut = 0) := by
  rcases Nat.eq_zero_or_pos src.size with hsize | hsize
  · have hmem := List.mem_of_getElem? hp
    rw [assemble_of_empty hsize, List.mem_singleton] at hmem
    rw [hmem]
    exact ⟨fun _ => rfl, fun _ => rfl⟩
  · rw [getElem?_assemble hsize, Option.map_eq_some_iff] at hp
    obtain ⟨b, hb, rfl⟩ := hp
    have hi := (List.getElem?_eq_some_iff.1 hb).1
    obtain ⟨rfl, -⟩ := getElem?_boundariesFrom hb
    constructor
    · intro h
      exact congrArg State.depth (nthBoundary_before_eq_initial hstrict hchars
        (reason_nthBoundary_of_forall (Nat.le_of_lt hi) h))
    · intro h
      exact congrArg State.depth (nthBoundary_before_eq_initial (n := i + 1) hstrict hchars
        (reason_nthBoundary_of_forall hi h))

/-- What a strict cut outside all braces of its window is worth, if the window begins with the
part and the part in code. The part ends in code and no deeper than it began. If it began
outside all braces, it ends for this reason just if its limits hold a line end that is truly
outside all braces, and then at the last one. So if the limits never exceed a window, the
parts of a text begin outside all braces as long as all cuts before have been of this kind,
and end there if they are cut so themselves. -/
theorem depthZero_of_strict (hstrict : policy.strategy = .strict) :
    (∀ (src : Source) (start : Nat) (before : State),
      tentativeCut src policy.limits start < src.size →
      tentativeCut src policy.limits start ≤ start + depthZeroLookback →
      before.mode = .code → before.escaped = false →
      ((selectBoundary src policy start before).reason = .depthZeroNewline →
        (selectBoundary src policy start before).after.mode = .code ∧
          (selectBoundary src policy start before).after.escaped = false ∧
          (selectBoundary src policy start before).after.depth ≤ before.depth) ∧
      (before.depth = 0 →
        ((selectBoundary src policy start before).reason = .depthZeroNewline ↔
          ∃ o, o ≤ tentativeCut src policy.limits start ∧
            src.DepthZeroLineEnd start before o) ∧
        ((selectBoundary src policy start before).reason = .depthZeroNewline →
          (selectBoundary src policy start before).cut ≤ tentativeCut src policy.limits start ∧
            src.DepthZeroLineEnd start before (selectBoundary src policy start before).cut ∧
            ∀ o, o ≤ tentativeCut src policy.limits start →
              src.DepthZeroLineEnd start before o →
              o ≤ (selectBoundary src policy start before).cut))) ∧
    (policy.limits.maxChars ≤ depthZeroLookback →
      ∀ (text : String) (ps : List Part), split text policy = .ok ps →
      ∀ (i : Nat) (p : Part), ps[i]? = some p →
        ((∀ j b, j < i → (boundaries (Source.ofString text) policy)[j]? = some b →
            b.reason = .depthZeroNewline) → p.depthIn = 0) ∧
        ((∀ j b, j < i + 1 → (boundaries (Source.ofString text) policy)[j]? = some b →
            b.reason = .depthZeroNewline) → p.depthOut = 0)) := by
  constructor
  · intro src start before hlimits hwindow hmode hescaped
    refine ⟨depth_after_le hstrict hlimits hwindow hmode hescaped, fun hdepth => ?_⟩
    rw [eq_initial hmode hescaped hdepth]
    exact reason_eq_depthZeroNewline_iff hstrict hlimits hwindow
  · intro hchars text ps hps i p hp
    obtain ⟨-, rfl⟩ := split_eq_ok_iff.1 hps
    exact depth_eq_zero_of_reasons hstrict hchars hp

/-- A block and the beginning of another: the cut behind the first is outside all braces, and
from a block further out it is one brace deep. -/
theorem depthZero_of_strict_block :
    Strategy.strict = .strict ∧
      tentativeCut (Source.ofString "\x7b\n\x7d\n\x7b\n\x7d\n") ⟨7, 9⟩ 0 <
        (Source.ofString "\x7b\n\x7d\n\x7b\n\x7d\n").size ∧
      (selectBoundary (Source.ofString "\x7b\n\x7d\n\x7b\n\x7d\n") ⟨⟨7, 9⟩, .strict, 0.0⟩ 0
        ⟨.code, 1, false⟩).reason = .depthZeroNewline ∧
      (selectBoundary (Source.ofString "\x7b\n\x7d\n\x7b\n\x7d\n") ⟨⟨7, 9⟩, .strict, 0.0⟩ 0
        ⟨.code, 1, false⟩).after.depth ≤ 1 ∧
      ∃ ps p, split "\x7b\n\x7d\n\x7b\n\x7d\n" ⟨⟨7, 9⟩, .strict, 0.0⟩ = .ok ps ∧ ps[0]? = some p ∧
        p.depthIn = 0 ∧ p.depthOut = 0 := by
  have hlimits : tentativeCut (Source.ofString "\x7b\n\x7d\n\x7b\n\x7d\n") ⟨7, 9⟩ 0 <
      (Source.ofString "\x7b\n\x7d\n\x7b\n\x7d\n").size := by
    decide +kernel
  have hreason : (selectBoundary (Source.ofString "\x7b\n\x7d\n\x7b\n\x7d\n")
      ⟨⟨7, 9⟩, .strict, 0.0⟩ 0 ⟨.code, 1, false⟩).reason = .depthZeroNewline := by
    decide +kernel
  have hstrict : (Policy.mk ⟨7, 9⟩ .strict 0.0).strategy = .strict := rfl
  obtain ⟨hpart, hrun⟩ := depthZero_of_strict hstrict
  have hdepth := ((hpart _ 0 ⟨.code, 1, false⟩ hlimits (by decide +kernel) rfl rfl).1 hreason).2.2
  have hvalid : Policy.Valid ⟨⟨7, 9⟩, .strict, 0.0⟩ :=
    ⟨by decide, by decide, by decide, by decide⟩
  have hsplit := split_of_valid hvalid "\x7b\n\x7d\n\x7b\n\x7d\n"
  have hfirst :
      (boundaries (Source.ofString "\x7b\n\x7d\n\x7b\n\x7d\n") ⟨⟨7, 9⟩, .strict, 0.0⟩)[0]? =
        some (selectBoundary (Source.ofString "\x7b\n\x7d\n\x7b\n\x7d\n") ⟨⟨7, 9⟩, .strict, 0.0⟩ 0
          .initial) := by
    rw [boundaries, boundariesFrom_of_lt (by decide +kernel), List.getElem?_cons_zero]
  have hp := getElem?_assemble_of_boundary hfirst
  obtain ⟨hin, hout⟩ := hrun (by decide) _ _ hsplit 0 _ hp
  refine ⟨hstrict, hlimits, hreason, hdepth, _, _, hsplit, hp,
    hin fun j b hj => absurd hj (Nat.not_lt_zero j), hout fun j b hj hget => ?_⟩
  obtain rfl : j = 0 := Nat.lt_one_iff.1 hj
  rw [hfirst, Option.some.injEq] at hget
  rw [← hget]
  decide +kernel

end CodeParts.Split
