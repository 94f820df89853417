import CodeParts.Proofs.Split.Overshoot
import CodeParts.Proofs.Split.Phases

/-!
# The strategies compared

All strategies start from the same tentative cut, and what they find is moved to the end of
its line. A move takes an offset to the least line break that is not before it
(`snapToLineEnd_le_of_lineBreak`), so cuts are compared by comparing what was found.

* Of the four terminators only their common part matters. The ones that take in a newline
  end where that newline would have been reached anyway (`snapToLineEnd_of_terminator`), so a
  search for all four cuts where a search for the common part would (`forward_search`).
* A strict search finds nothing behind the last resort (`strictCandidate_offset_le`), and the
  last resort nothing behind a terminator. A search that looks further forward finds the same
  terminator, or one where there was none. So the strict cut is the first and the one of a
  search without end the last (`strategies_ordered`).
-/

namespace CodeParts

namespace Source

variable {src : Source} {lit : List Char} {a b c p : Nat}

/-! ### Literals -/

/-- Of all offsets from `a` on the literal first stands at `p`, and it ends at or before `b`. -/
structure StandsFirst (src : Source) (lit : List Char) (a b p : Nat) : Prop where
  le : a ≤ p
  stop_le : p + lit.length ≤ b
  literalAt : src.literalAt lit p = true
  first : ∀ i, a ≤ i → i < p → src.literalAt lit i = false

/-- What stands first stands first in a longer range. -/
theorem StandsFirst.mono (h : src.StandsFirst lit a b p) (hbc : b ≤ c) :
    src.StandsFirst lit a c p :=
  { h with stop_le := Nat.le_trans h.stop_le hbc }

/-- If a literal stands in a range at all, it stands first somewhere. -/
theorem exists_standsFirst (h : ∃ i, a ≤ i ∧ i + lit.length ≤ b ∧ src.literalAt lit i = true) :
    ∃ p, src.StandsFirst lit a b p := by
  obtain ⟨i, hai, hib, hlit⟩ := h
  cases hfirst : firstIn (src.literalAt lit) a (i + 1) with
  | none =>
      rw [firstIn_eq_none_iff.1 hfirst i hai (Nat.lt_succ_self i)] at hlit
      cases hlit
  | some p =>
      obtain ⟨hap, hpi, hp, hmin⟩ := firstIn_eq_some_iff.1 hfirst
      exact ⟨p, hap, by omega, hp, hmin⟩

end Source

namespace Split

open Lexer

variable {src : Source} {policy : Policy} {limits : Limits} {start stop a b p t reach : Nat}

/-! ### One search for four terminators -/

/-- The common part begins with a brace and not with a newline. -/
theorem newlineAt_of_core (h : src.literalAt terminatorCore p = true) :
    src.newlineAt p = false := by
  rw [terminatorCore, Source.literalAt, Bool.and_eq_true, Source.charIs_eq_true] at h
  rw [← Bool.not_eq_true, Source.newlineAt_eq_true, h.1]
  decide

/-- The search for the four terminators finds the common part where that first stands, up to
its end or up to the newline right behind it. -/
theorem firstTerminator_of_standsFirst (h : src.StandsFirst terminatorCore a b p) :
    ∃ o, firstTerminator src a b = some o ∧
      (o.stop = p + terminatorCore.length ∨
        o.stop = p + terminatorCore.length + 1 ∧
          src.newlineAt (p + terminatorCore.length) = true) := by
  have hsome := isSome_firstTerminator_iff.2 ⟨p, h.le, h.stop_le, h.literalAt⟩
  obtain ⟨o, ho⟩ := Option.isSome_iff_exists.1 hsome
  obtain ⟨token, htoken, hstop, hao, -, hmin⟩ := firstTerminator_eq_some_iff.1 ho
  obtain ⟨j, hj, hcore, -, hlength⟩ := core_of_terminatorAt htoken
  -- Of the common part `p` is the first offset, and of the terminators `o.start` is.
  have hpj : p ≤ j := by
    refine Nat.le_of_not_lt fun hlt => ?_
    rw [h.first j (by omega) hlt] at hcore
    cases hcore
  have hop : o.start ≤ p := by
    refine Nat.le_of_not_lt fun hlt => ?_
    have hat := isSome_terminatorAt h.literalAt h.stop_le
    rw [hmin p h.le hlt] at hat
    cases hat
  have hjp : j = p := by
    rcases hj with hj | ⟨hj, hnl⟩
    · omega
    · refine Nat.le_antisymm (Nat.le_of_not_lt fun hlt => ?_) hpj
      have hp : o.start = p := by omega
      rw [hp, newlineAt_of_core h.literalAt] at hnl
      cases hnl
  subst hjp
  exact ⟨o, ho, by rwa [hstop]⟩

/-- From the end of a terminator, with its newline or without, a cut is moved to the end of
the line. -/
theorem snapToLineEnd_of_terminator (hcore : src.literalAt terminatorCore p = true)
    (hp : start ≤ p) (hstop : stop = p + terminatorCore.length ∨
      stop = p + terminatorCore.length + 1 ∧
        src.newlineAt (p + terminatorCore.length) = true) :
    snapToLineEnd src start stop = src.lineEndFrom (p + terminatorCore.length) := by
  have hlength : 0 < terminatorCore.length := by decide
  rcases hstop with rfl | ⟨rfl, hnl⟩
  · -- The common part ends in a semicolon, so its end is no line end.
    have hlast : src.newlineAt (p + terminatorCore.length - 1) = false := by
      rw [← Bool.not_eq_true, Source.newlineAt_eq_true,
        Source.charAt_of_literalAt hcore (by decide)]
      decide
    have hsize := Source.add_length_le_size hcore (by decide)
    have hend := src.le_lineEndFrom (p + terminatorCore.length)
    have hle := src.lineEndFrom_le (p + terminatorCore.length)
    unfold snapToLineEnd
    rw [if_neg (by omega), hlast]
    split
    · omega
    · rfl
  · rw [snapToLineEnd_of_newlineAt (by omega) hnl]
    have hlt := Source.lt_lineEndFrom (Source.lt_size_of_newlineAt hnl)
    exact Nat.le_antisymm hlt
      (Source.lineEndFrom_le_of_lineBreak (Source.lineBreak_succ_of_newlineAt hnl)
        (Nat.lt_succ_self _))

/-- Where the common part stands, a search forward cuts at the end of its line. -/
theorem terminatorCandidate_of_standsFirst
    (h : src.StandsFirst terminatorCore t reach p) (hstart : start ≤ t) :
    (terminatorCandidate src start t reach).reason = .iifeTerminator ∧
      snapToLineEnd src start (terminatorCandidate src start t reach).offset =
        src.lineEndFrom (p + terminatorCore.length) := by
  obtain ⟨o, ho, hstop⟩ := firstTerminator_of_standsFirst h
  rw [terminatorCandidate, ho]
  exact ⟨rfl, snapToLineEnd_of_terminator h.literalAt (Nat.le_trans hstart h.le) hstop⟩

/-- Where it does not stand, the search falls back to the last resort. -/
theorem terminatorCandidate_of_not_standsFirst (h : ∀ p, ¬ src.StandsFirst terminatorCore t reach p)
    (start : Nat) : terminatorCandidate src start t reach = newlineCandidate src start t := by
  rw [terminatorCandidate]
  cases hfirst : firstTerminator src t reach with
  | none => rfl
  | some o =>
      obtain ⟨p, hp⟩ := Source.exists_standsFirst
        (isSome_firstTerminator_iff.1 (Option.isSome_iff_exists.2 ⟨o, hfirst⟩))
      exact absurd hp (h p)

/-! ### Boundaries of candidates -/

/-- The boundary at a candidate, which is moved to the end of its line. -/
def boundaryOf (src : Source) (limits : Limits) (start : Nat) (before : State) (c : Candidate) :
    Boundary :=
  ⟨start, before, tentativeCut src limits start, c, snapToLineEnd src start c.offset,
    src.scan start (snapToLineEnd src start c.offset) before⟩

theorem selectBoundary_eq (src : Source) (policy : Policy) (start : Nat) (before : State) :
    selectBoundary src policy start before =
      boundaryOf src policy.limits start before
        (candidateAt src policy start (tentativeCut src policy.limits start)) :=
  rfl

theorem searchCandidate_of_ne_strict (h : policy.strategy ≠ .strict) (start t : Nat) :
    searchCandidate src policy start t =
      terminatorCandidate src start t (policy.reach src t) := by
  unfold searchCandidate Policy.reach
  cases hstrategy : policy.strategy with
  | strict => exact absurd hstrategy h
  | constructPriority => rfl
  | hybrid => rfl

/-- A strategy that looks forward is a search for the common part of the terminators. Where
that first stands within reach the part ends with the line in which it ends; if it stands
nowhere the boundary is that of the last resort. -/
theorem forward_search (hforward : policy.strategy ≠ .strict) (before : State)
    (hlimits : tentativeCut src policy.limits start < src.size) :
    (∀ p, src.StandsFirst terminatorCore (tentativeCut src policy.limits start)
        (policy.reach src (tentativeCut src policy.limits start)) p →
      (selectBoundary src policy start before).reason = .iifeTerminator ∧
        (selectBoundary src policy start before).cut =
          src.lineEndFrom (p + terminatorCore.length)) ∧
    ((¬ ∃ p, src.StandsFirst terminatorCore (tentativeCut src policy.limits start)
        (policy.reach src (tentativeCut src policy.limits start)) p) →
      ((selectBoundary src policy start before).reason = .lastNewline ∨
          (selectBoundary src policy start before).reason = .hardCut) ∧
        selectBoundary src policy start before =
          boundaryOf src policy.limits start before
            (newlineCandidate src start (tentativeCut src policy.limits start))) := by
  have hstart := le_tentativeCut hlimits
  rw [selectBoundary_eq, candidateAt, if_neg (Nat.not_le.2 hlimits),
    searchCandidate_of_ne_strict hforward]
  constructor
  · intro p hp
    exact terminatorCandidate_of_standsFirst hp hstart
  · intro hnone
    rw [terminatorCandidate_of_not_standsFirst (fun p hp => hnone ⟨p, hp⟩)]
    exact ⟨newlineCandidate_reason src start _, rfl⟩

/-- A call that ends just within reach, behind a newline at the tentative cut and before a
comment: the part takes in the comment. -/
theorem forward_search_comment :
    Strategy.hybrid ≠ .strict ∧
      tentativeCut (Source.ofString "f\n\n\x7d)(); // g\nh\n") ⟨2, 9⟩ 0 <
        (Source.ofString "f\n\n\x7d)(); // g\nh\n").size ∧
      (Source.ofString "f\n\n\x7d)(); // g\nh\n").StandsFirst terminatorCore 2 8 3 ∧
      (selectBoundary (Source.ofString "f\n\n\x7d)(); // g\nh\n") ⟨⟨2, 9⟩, .hybrid, 3.0⟩ 0
        .initial).reason = .iifeTerminator ∧
      (selectBoundary (Source.ofString "f\n\n\x7d)(); // g\nh\n") ⟨⟨2, 9⟩, .hybrid, 3.0⟩ 0
        .initial).cut = 14 := by
  have htentative : tentativeCut (Source.ofString "f\n\n\x7d)(); // g\nh\n") ⟨2, 9⟩ 0 = 2 := by
    decide +kernel
  have hreach : Policy.reach (Source.ofString "f\n\n\x7d)(); // g\nh\n")
      ⟨⟨2, 9⟩, .hybrid, 3.0⟩ 2 = 8 := by
    decide +kernel
  have hfirst : (Source.ofString "f\n\n\x7d)(); // g\nh\n").StandsFirst terminatorCore 2 8 3 := by
    refine ⟨by decide, by decide, by decide +kernel, fun i hle hlt => ?_⟩
    obtain rfl : i = 2 := by omega
    decide +kernel
  have hlimits : tentativeCut (Source.ofString "f\n\n\x7d)(); // g\nh\n") ⟨2, 9⟩ 0 <
      (Source.ofString "f\n\n\x7d)(); // g\nh\n").size := by
    decide +kernel
  have hforward : (Policy.mk ⟨2, 9⟩ .hybrid 3.0).strategy ≠ .strict := by decide
  obtain ⟨hreason, hcut⟩ := (forward_search hforward .initial hlimits).1 3
    (by rw [htentative, hreach]; exact hfirst)
  exact ⟨hforward, hlimits, hfirst, hreason, hcut.trans (by decide +kernel)⟩

/-! ### The order of the strategies -/

/-- The last resort finds nothing before the last line end within the limits. -/
theorem succ_le_newlineCandidate_offset {j : Nat} (hj : j < t) (ht : t ≤ src.size)
    (hnl : src.newlineAt j = true) (start : Nat) :
    j + 1 ≤ (newlineCandidate src start t).offset := by
  unfold newlineCandidate
  cases hlast : src.lastNewline start t with
  | none => exact hj
  | some nl =>
      have hjnl : j ≤ nl := by
        refine Nat.le_of_not_lt fun hlt => ?_
        rw [Source.lastNewline, Nat.min_eq_left ht] at hlast
        rw [(lastIn_eq_some_iff.1 hlast).2.2.2 j hlt hj] at hnl
        cases hnl
      simp only
      split
      · exact Nat.succ_le_succ hjnl
      · exact hj

/-- A strict search finds nothing behind what the last resort finds. -/
theorem strictCandidate_offset_le (start : Nat) (ht : t ≤ src.size) :
    (strictCandidate src start t).offset ≤ (newlineCandidate src start t).offset := by
  rcases strictCandidate_cases start ht with ⟨hline, -⟩ | ⟨hcut, hnone, -⟩
  · have hlt := hline.lt_offset
    have hle := hline.offset_le
    have hlast := succ_le_newlineCandidate_offset (by omega) ht hline.newlineAt start
    omega
  · -- Without a newline behind the first character there is nothing but the limits.
    rcases newlineCandidate_cases start ht with hline | ⟨hlimits, -⟩
    · have hlt := hline.lt_offset
      have hle := hline.offset_le
      have hnl := hline.newlineAt
      rw [hnone _ (by omega) (by omega)] at hnl
      cases hnl
    · exact Nat.le_of_eq (congrArg Candidate.offset (hcut.trans hlimits.symm))

/-- The last resort finds nothing behind the limits. -/
theorem newlineCandidate_offset_le (start : Nat) (ht : t ≤ src.size) :
    (newlineCandidate src start t).offset ≤ t := by
  rcases newlineCandidate_cases start ht with hline | ⟨hcut, -⟩
  · exact hline.offset_le
  · exact Nat.le_of_eq (congrArg Candidate.offset hcut)

/-- What the last resort finds is moved no further than to the end of a line behind the
limits. -/
theorem snapToLineEnd_newlineCandidate_le (hstart : start ≤ t) (ht : t ≤ src.size)
    (hcore : src.literalAt terminatorCore p = true) (hp : t ≤ p) :
    snapToLineEnd src start (newlineCandidate src start t).offset ≤
      src.lineEndFrom (p + terminatorCore.length) := by
  have hlength : 0 < terminatorCore.length := by decide
  have hoffset := newlineCandidate_offset_le start ht
  have hsize := Source.add_length_le_size hcore (by decide)
  have hend := src.le_lineEndFrom (p + terminatorCore.length)
  exact snapToLineEnd_le_of_lineBreak (src.lineBreak_lineEndFrom _) (by omega) (by omega)

/-- A search that reaches further cuts no earlier, and where the one that reaches less far has
found a terminator both cut there. -/
theorem terminatorCandidate_mono {far : Nat} (hstart : start ≤ t) (ht : t ≤ src.size)
    (hreach : reach ≤ far) :
    snapToLineEnd src start (terminatorCandidate src start t reach).offset ≤
        snapToLineEnd src start (terminatorCandidate src start t far).offset ∧
      ((terminatorCandidate src start t reach).reason = .iifeTerminator →
        (terminatorCandidate src start t far).reason = .iifeTerminator ∧
          snapToLineEnd src start (terminatorCandidate src start t far).offset =
            snapToLineEnd src start (terminatorCandidate src start t reach).offset) := by
  by_cases hnear : ∃ p, src.StandsFirst terminatorCore t reach p
  · obtain ⟨p, hp⟩ := hnear
    obtain ⟨-, hcut⟩ := terminatorCandidate_of_standsFirst hp hstart
    obtain ⟨hreason, hcut'⟩ := terminatorCandidate_of_standsFirst (hp.mono hreach) hstart
    rw [hcut, hcut']
    exact ⟨Nat.le_refl _, fun _ => ⟨hreason, rfl⟩⟩
  · rw [terminatorCandidate_of_not_standsFirst (fun p hp => hnear ⟨p, hp⟩)]
    constructor
    · by_cases hfar : ∃ p, src.StandsFirst terminatorCore t far p
      · obtain ⟨p, hp⟩ := hfar
        obtain ⟨-, hcut⟩ := terminatorCandidate_of_standsFirst hp hstart
        rw [hcut]
        exact snapToLineEnd_newlineCandidate_le hstart ht hp.literalAt hp.le
      · exact Nat.le_of_eq (by
          rw [terminatorCandidate_of_not_standsFirst (fun p hp => hfar ⟨p, hp⟩)])
    · intro hreason
      rcases newlineCandidate_reason src start t with hother | hother
      · rw [hother] at hreason
        cases hreason
      · rw [hother] at hreason
        cases hreason

/-- A strict search cuts no later than one that looks forward. -/
theorem snapToLineEnd_strictCandidate_le (hstart : start < src.size) (hle : start ≤ t)
    (ht : t ≤ src.size) (reach : Nat) :
    snapToLineEnd src start (strictCandidate src start t).offset ≤
      snapToLineEnd src start (terminatorCandidate src start t reach).offset := by
  have hlast := snapToLineEnd_mono hstart (strictCandidate_offset_le start ht)
  by_cases hfound : ∃ p, src.StandsFirst terminatorCore t reach p
  · obtain ⟨p, hp⟩ := hfound
    obtain ⟨-, hcut⟩ := terminatorCandidate_of_standsFirst hp hle
    rw [hcut]
    exact Nat.le_trans hlast (snapToLineEnd_newlineCandidate_le hle ht hp.literalAt hp.le)
  · rw [terminatorCandidate_of_not_standsFirst (fun p hp => hfound ⟨p, hp⟩)]
    exact hlast

/-- Where a part ends, in which state, and for which reason. -/
def Boundary.outcome (b : Boundary) : Nat × State × CutReason := (b.cut, b.after, b.reason)

/-- What is known of the boundaries from one start under two policies with the same limits, the
second of which looks no less far: the second cuts no earlier, and if the first has ended the
part with a call, the second has done the same. -/
structure Precedes (b c : Boundary) : Prop where
  cut_le : b.cut ≤ c.cut
  outcome_eq : b.reason = .iifeTerminator → c.outcome = b.outcome

/-- Limits that reach the end of the text leave nothing to a strategy. -/
theorem selectBoundary_of_size_le (h : src.size ≤ tentativeCut src limits start)
    (strategy strategy' : Strategy) (ratio ratio' : Float) (before : State) :
    selectBoundary src ⟨limits, strategy, ratio⟩ start before =
      selectBoundary src ⟨limits, strategy', ratio'⟩ start before := by
  rw [selectBoundary_eq, selectBoundary_eq, candidateAt, candidateAt, if_pos h, if_pos h]

theorem precedes_of_reach_le (policy policy' : Policy) (hlimits : policy'.limits = policy.limits)
    (h : policy.strategy ≠ .strict) (h' : policy'.strategy ≠ .strict)
    (hreach : policy.reach src (tentativeCut src policy.limits start) ≤
      policy'.reach src (tentativeCut src policy.limits start)) (before : State) :
    Precedes (selectBoundary src policy start before)
      (selectBoundary src policy' start before) := by
  have ht := tentativeCut_le src policy.limits start
  rw [selectBoundary_eq, selectBoundary_eq, hlimits, candidateAt, candidateAt]
  by_cases hend : src.size ≤ tentativeCut src policy.limits start
  · rw [if_pos hend, if_pos hend]
    exact ⟨Nat.le_refl _, fun _ => rfl⟩
  · rw [if_neg hend, if_neg hend, searchCandidate_of_ne_strict h, searchCandidate_of_ne_strict h']
    obtain ⟨hcut, heq⟩ :=
      terminatorCandidate_mono (le_tentativeCut (Nat.lt_of_not_le hend)) ht hreach
    refine ⟨hcut, fun hreason => ?_⟩
    obtain ⟨hreason', hcut'⟩ := heq hreason
    simp only [Boundary.outcome, Boundary.reason, boundaryOf] at hreason ⊢
    rw [hcut', hreason, hreason']

/-- From any start and under any limits the strict cut is the first, the hybrid one the next and
the one of the strategy that looks to the end of the text the last. A hybrid search of a
greater grace distance cuts no earlier. The end of a call that one search has found is where
every search of no smaller reach ends the part, in the same state and for the same reason. -/
theorem strategies_ordered (src : Source) (limits : Limits) (start : Nat) (before : State) :
    (∀ ratio ratio', (selectBoundary src ⟨limits, .strict, ratio⟩ start before).cut ≤
      (selectBoundary src ⟨limits, .hybrid, ratio'⟩ start before).cut) ∧
    (∀ ratio ratio', Precedes (selectBoundary src ⟨limits, .hybrid, ratio⟩ start before)
      (selectBoundary src ⟨limits, .constructPriority, ratio'⟩ start before)) ∧
    (∀ ratio ratio', graceDistance (tentativeCut src limits start) ratio ≤
        graceDistance (tentativeCut src limits start) ratio' →
      Precedes (selectBoundary src ⟨limits, .hybrid, ratio⟩ start before)
        (selectBoundary src ⟨limits, .hybrid, ratio'⟩ start before)) := by
  have ht := tentativeCut_le src limits start
  refine ⟨?strict, ?hybrid, ?grace⟩
  case strict =>
    intro ratio ratio'
    by_cases hend : src.size ≤ tentativeCut src limits start
    · have hsame := selectBoundary_of_size_le hend .strict .hybrid ratio ratio' before
      exact Nat.le_of_eq (congrArg Boundary.cut hsame)
    · have hstart := le_tentativeCut (Nat.lt_of_not_le hend)
      rw [selectBoundary_eq, selectBoundary_eq, candidateAt, candidateAt, if_neg hend, if_neg hend]
      exact snapToLineEnd_strictCandidate_le (by omega) hstart ht _
  case hybrid =>
    intro ratio ratio'
    exact precedes_of_reach_le ⟨limits, .hybrid, ratio⟩ ⟨limits, .constructPriority, ratio'⟩ rfl
      (by simp) (by simp) (Nat.min_le_right _ _) before
  case grace =>
    intro ratio ratio' hgrace
    refine precedes_of_reach_le ⟨limits, .hybrid, ratio⟩ ⟨limits, .hybrid, ratio'⟩ rfl
      (by simp) (by simp) ?_ before
    simp only [Policy.reach]
    omega

/-- A call within the smaller of two grace distances: both hybrid searches end the part with it,
and the strict search ends the part before. -/
theorem strategies_ordered_two_distances :
    graceDistance (tentativeCut (Source.ofString "f\ng\n\x7d)();\nh\n") ⟨3, 9⟩ 0) 3.0 ≤
        graceDistance (tentativeCut (Source.ofString "f\ng\n\x7d)();\nh\n") ⟨3, 9⟩ 0) 7.5 ∧
      (selectBoundary (Source.ofString "f\ng\n\x7d)();\nh\n") ⟨⟨3, 9⟩, .strict, 0.0⟩ 0
        .initial).cut = 2 ∧
      (selectBoundary (Source.ofString "f\ng\n\x7d)();\nh\n") ⟨⟨3, 9⟩, .hybrid, 3.0⟩ 0
        .initial).outcome = (10, .initial, .iifeTerminator) ∧
      (selectBoundary (Source.ofString "f\ng\n\x7d)();\nh\n") ⟨⟨3, 9⟩, .hybrid, 7.5⟩ 0
        .initial).outcome = (10, .initial, .iifeTerminator) := by
  have hgrace : graceDistance
      (tentativeCut (Source.ofString "f\ng\n\x7d)();\nh\n") ⟨3, 9⟩ 0) 3.0 ≤
        graceDistance (tentativeCut (Source.ofString "f\ng\n\x7d)();\nh\n") ⟨3, 9⟩ 0) 7.5 := by
    decide +kernel
  obtain ⟨-, -, hordered⟩ :=
    strategies_ordered (Source.ofString "f\ng\n\x7d)();\nh\n") ⟨3, 9⟩ 0 .initial
  have houtcome : (selectBoundary (Source.ofString "f\ng\n\x7d)();\nh\n")
      ⟨⟨3, 9⟩, .hybrid, 3.0⟩ 0 .initial).outcome = (10, .initial, .iifeTerminator) := by
    decide +kernel
  refine ⟨hgrace, by decide +kernel, houtcome, ?_⟩
  exact ((hordered 3.0 7.5 hgrace).outcome_eq (by decide +kernel)).trans houtcome

end Split

end CodeParts
