import CodeParts.Proofs.Lexer.LineEnds
import CodeParts.Proofs.Split.Tiling

/-!
# What the strict strategy makes of the limits

The limits of a policy are soft in general: a candidate is looked for at or behind them, and
every candidate is moved to the end of its line. Under the strict strategy the limit on lines
is nevertheless never exceeded, and the limit on characters only by a line that is too long
by itself (`limits_of_strict`).

The strict search looks back from the tentative cut (`strictCandidate_within`). What it finds
is the end of a line, which stays where it is, or the tentative cut itself behind a stretch
without newlines, so that moving it to the end of the line adds no line.
-/

namespace CodeParts.Split

open Lexer

variable {src : Source} {policy : Policy} {limits : Limits} {start stop a b t c : Nat}
  {before : State}

/-! ### The tentative cut -/

theorem tentativeCut_le_add (src : Source) (limits : Limits) (start : Nat) :
    tentativeCut src limits start ≤ start + limits.maxChars := by
  unfold tentativeCut
  omega

theorem min_le_tentativeCut (src : Source) (limits : Limits) (start : Nat) :
    min start src.size ≤ tentativeCut src limits start := by
  unfold tentativeCut
  cases hlines : src.afterNewline start limits.maxLines with
  | none =>
      rw [Option.getD_none]
      omega
  | some e =>
      have := Source.le_afterNewline hlines
      rw [Option.getD_some]
      omega

/-- Limits that end before the text do not end before the part. -/
theorem le_tentativeCut (h : tentativeCut src limits start < src.size) :
    start ≤ tentativeCut src limits start := by
  have := min_le_tentativeCut src limits start
  omega

/-- Before the tentative cut there are at most as many lines as the limit. -/
theorem lineOf_lt_of_lt_tentativeCut {j : Nat} (hstart : start ≤ j)
    (hj : j < tentativeCut src limits start) :
    src.lineOf j < src.lineOf start + limits.maxLines := by
  unfold tentativeCut at hj
  exact Source.lineOf_lt_of_lt_afterNewline hstart (by omega)

/-- With limits that are positive every part may have a character. -/
theorem lt_tentativeCut (hvalid : policy.Valid) (h : start < src.size) :
    start < tentativeCut src policy.limits start := by
  have hchars := hvalid.maxChars_pos
  have hlines := Source.lt_afterNewline hvalid.maxLines_pos h
  unfold tentativeCut
  omega

/-! ### What the searches find -/

/-- A line end outside all braces is the end of a line in the window. -/
theorem newlineAt_of_lastDepthZeroLineEnd (h : lastDepthZeroLineEnd src a b = some c) :
    a < c ∧ c ≤ b ∧ src.newlineAt (c - 1) = true := by
  obtain ⟨hle, hend⟩ := Source.lastLineEnd_eq_some h
  exact ⟨hend.lt, hle, hend.newlineAt⟩

/-- The end of a block is the end of a line in the window. -/
theorem newlineAt_of_lastClosing (h : lastClosing src a b = some c) :
    a < c ∧ c ≤ b ∧ src.newlineAt (c - 1) = true := by
  have htokens : ∀ token ∈ closingTokens, token ≠ [] ∧ token.getLast? = some '\n' := by decide
  obtain ⟨token, hmem, htoken⟩ := List.exists_of_findSome?_eq_some h
  obtain ⟨hne, hlast⟩ := htokens token hmem
  obtain ⟨pos, hpos, rfl⟩ := Option.map_eq_some_iff.1 htoken
  rw [Source.lastLiteral_eq] at hpos
  obtain ⟨hapos, hbound, hlit, -⟩ := lastIn_eq_some_iff.1 hpos
  have hlen : 0 < token.length := List.length_pos_iff.2 hne
  rw [Source.literalBound, if_neg (by simpa using hne)] at hbound
  refine ⟨by omega, by omega, ?_⟩
  rw [Source.newlineAt_eq_true, Source.charAt_of_literalAt hlit hne, hlast]

/-- A candidate that some rule found in `(a, t]`: the end of a line. -/
structure Candidate.EndsLine (src : Source) (a t : Nat) (c : Candidate) : Prop where
  reason_ne : c.reason ≠ .hardCut
  lt_offset : a < c.offset
  offset_le : c.offset ≤ t
  newlineAt : src.newlineAt (c.offset - 1) = true

/-- The last resort finds the end of a line behind the first character, or there is none. -/
theorem newlineCandidate_cases (start : Nat) (ht : t ≤ src.size) :
    (newlineCandidate src start t).EndsLine src (start + 1) t ∨
      newlineCandidate src start t = ⟨t, .hardCut⟩ ∧
        ∀ j, start < j → j < t → src.newlineAt j = false := by
  unfold newlineCandidate
  cases hnl : src.lastNewline start t with
  | none =>
      rw [Source.lastNewline, Nat.min_eq_left ht, lastIn_eq_none_iff] at hnl
      exact .inr ⟨rfl, fun j hj hjt => hnl j (Nat.le_of_lt hj) hjt⟩
  | some nl =>
      rw [Source.lastNewline, Nat.min_eq_left ht, lastIn_eq_some_iff] at hnl
      obtain ⟨hle, hlt, hat, hmax⟩ := hnl
      by_cases hstart : start < nl
      · simp only [if_pos hstart]
        exact .inl ⟨by simp, Nat.succ_lt_succ hstart, hlt, hat⟩
      · exact .inr ⟨if_neg hstart, fun j hj hjt => hmax j (by omega) hjt⟩

/-- The strict search finds the end of a line, and one right behind the first character only
if a lookback window begins there; or there is none behind the first character and none
outside all braces in the window. -/
theorem strictCandidate_cases (start : Nat) (ht : t ≤ src.size) :
    ((strictCandidate src start t).EndsLine src start t ∧
        ((strictCandidate src start t).offset = start + 1 → t ≤ start + depthZeroLookback)) ∨
      strictCandidate src start t = ⟨t, .hardCut⟩ ∧
        (∀ j, start < j → j < t → src.newlineAt j = false) ∧
        lastDepthZeroLineEnd src (max start (t - depthZeroLookback)) t = none := by
  unfold strictCandidate
  cases hdepth : lastDepthZeroLineEnd src (max start (t - depthZeroLookback)) t with
  | some cut =>
      obtain ⟨hlt, hle, hnl⟩ := newlineAt_of_lastDepthZeroLineEnd hdepth
      have hstart : start < cut := Nat.lt_of_le_of_lt (Nat.le_max_left _ _) hlt
      simp only [Option.filter_some, hstart, decide_true, if_true]
      refine .inl ⟨⟨by simp, hstart, hle, hnl⟩, fun hfirst => ?_⟩
      have hfirst : cut = start + 1 := hfirst
      omega
  | none =>
      rw [Option.filter_none]
      cases hclosing : lastClosing src (max start (t - closingLookback)) t with
      | some cut =>
          obtain ⟨hlt, hle, hnl⟩ := newlineAt_of_lastClosing hclosing
          refine .inl ⟨⟨by simp, Nat.lt_of_le_of_lt (Nat.le_max_left _ _) hlt, hle, hnl⟩,
            fun hfirst => ?_⟩
          have hfirst : cut = start + 1 := hfirst
          unfold closingLookback at hlt
          unfold depthZeroLookback
          omega
      | none =>
          rcases newlineCandidate_cases start ht with hline | ⟨hcut, hnone⟩
          · have hlt := hline.lt_offset
            exact .inl ⟨⟨hline.reason_ne, Nat.lt_of_succ_lt hlt, hline.offset_le,
              hline.newlineAt⟩, fun hfirst => absurd hfirst (Nat.ne_of_gt hlt)⟩
          · exact .inr ⟨hcut, hnone, rfl⟩

/-- What a search that looks back from `t` comes to: the end of a line, or `t` itself if the
limits hold no such end behind the first character. -/
inductive Candidate.Within (src : Source) (start t : Nat) : Candidate → Prop
  | lineEnd {c : Candidate} : start < c.offset → c.offset ≤ t →
      src.newlineAt (c.offset - 1) = true → Within src start t c
  | limits {c : Candidate} : c.offset = t →
      (∀ j, start < j → j < t → src.newlineAt j = false) → Within src start t c

theorem strictCandidate_within (ht : t ≤ src.size) :
    (strictCandidate src start t).Within src start t := by
  rcases strictCandidate_cases start ht with ⟨hline, -⟩ | ⟨hcut, hnone, -⟩
  · exact .lineEnd hline.lt_offset hline.offset_le hline.newlineAt
  · rw [hcut]
    exact .limits rfl hnone

/-! ### The move to the end of the line -/

/-- The end of a line is not moved. -/
theorem snapToLineEnd_of_newlineAt (h : start < stop) (hnl : src.newlineAt (stop - 1) = true) :
    snapToLineEnd src start stop = stop := by
  have hlt := Source.lt_size_of_newlineAt hnl
  unfold snapToLineEnd
  rw [if_neg (by omega), if_pos hnl]
  split
  · omega
  · rfl

/-- An offset that is moved stands inside a line, and is moved to the end of that line. -/
theorem snapToLineEnd_cases (h : start < stop) (hstop : stop ≤ src.size) :
    snapToLineEnd src start stop = stop ∨
      (src.newlineAt (stop - 1) = false ∧
        ∀ j, stop ≤ j → j + 1 < snapToLineEnd src start stop → src.newlineAt j = false) := by
  unfold snapToLineEnd
  rw [if_neg (by omega)]
  split
  · exact .inl (by omega)
  · split
    · exact .inl rfl
    · next hnl =>
        exact .inr ⟨Bool.eq_false_iff.2 hnl,
          fun j hj hlt => Source.newlineAt_of_lt_lineEndFrom hj hlt⟩

/-! ### One part -/

/-- A strict part ends within its limits, or it is one line: no newline stands in it but the
last character and, before the tentative cut, the first. -/
theorem selectBoundary_cut_cases (before : State) (hstrict : policy.strategy = .strict)
    (hvalid : policy.Valid) (h : start < src.size) :
    (selectBoundary src policy start before).cut ≤ tentativeCut src policy.limits start ∨
      (src.newlineAt (tentativeCut src policy.limits start - 1) = false ∧
        ∀ j, start < j → j + 1 < (selectBoundary src policy start before).cut →
          src.newlineAt j = false) := by
  have hlt := lt_tentativeCut hvalid h
  have hle := tentativeCut_le src policy.limits start
  by_cases hend : src.size ≤ tentativeCut src policy.limits start
  · exact .inl (Nat.le_trans selectBoundary_cut_le hend)
  simp only [selectBoundary, candidateAt, if_neg hend, searchCandidate, hstrict]
  generalize tentativeCut src policy.limits start = t at hlt hle
  have hwithin : (strictCandidate src start t).Within src start t := strictCandidate_within hle
  cases hwithin with
  | lineEnd hpos hcut hnl =>
      rw [snapToLineEnd_of_newlineAt hpos hnl]
      exact .inl hcut
  | limits hcut hnone =>
      rw [hcut]
      rcases snapToLineEnd_cases hlt hle with hsnap | ⟨hnl, hmoved⟩
      · exact .inl (Nat.le_of_eq hsnap)
      · refine .inr ⟨hnl, fun j hj hjcut => ?_⟩
        by_cases hjt : j < t
        · exact hnone j hj hjt
        · exact hmoved j (Nat.le_of_not_lt hjt) hjcut

/-- The last character of a strict part stands in one of the lines it may have. -/
theorem lineOf_selectBoundary_cut_lt (before : State) (hstrict : policy.strategy = .strict)
    (hvalid : policy.Valid) (h : start < src.size) :
    src.lineOf ((selectBoundary src policy start before).cut - 1) <
      src.lineOf start + policy.limits.maxLines := by
  have hlt := lt_tentativeCut hvalid h
  have hcut := lt_selectBoundary_cut policy before h
  by_cases hle : (selectBoundary src policy start before).cut ≤
      tentativeCut src policy.limits start
  · exact lineOf_lt_of_lt_tentativeCut (by omega) (by omega)
  · rcases selectBoundary_cut_cases before hstrict hvalid h with hcap | ⟨hlast, hnone⟩
    · exact absurd hcap hle
    · -- The part goes on in the line in which the limits end.
      have hline : src.lineOf ((selectBoundary src policy start before).cut - 1) =
          src.lineOf (tentativeCut src policy.limits start - 1) := by
        rw [Source.lineOf_eq_lineOf_iff (by omega)]
        intro j hj hjcut
        rcases Nat.eq_or_lt_of_le hj with rfl | hjlt
        · exact hlast
        · exact hnone j (by omega) (by omega)
      rw [hline]
      exact lineOf_lt_of_lt_tentativeCut (by omega) (by omega)

/-! ### All parts -/

/-- A part has at most as many lines as the limit, and more characters than the limit only if
no newline stands between its first and its last character. -/
structure KeepsLimits (limits : Limits) (p : Part) : Prop where
  lineCount_le : p.lineCount ≤ limits.maxLines
  newline_free : limits.maxChars < p.charCount →
    ∀ k, 0 < k → k + 1 < p.charCount → p.text.toList[k]? ≠ some '\n'

theorem keepsLimits_ofBoundary (hstrict : policy.strategy = .strict) (hvalid : policy.Valid)
    (h : start < src.size) (ordinal total : Nat) :
    KeepsLimits policy.limits
      (Part.ofBoundary src ordinal total (selectBoundary src policy start before)) := by
  have hlines := lineOf_selectBoundary_cut_lt before hstrict hvalid h
  have hcut := lt_selectBoundary_cut policy before h
  have hchars := tentativeCut_le_add src policy.limits start
  have hcases := selectBoundary_cut_cases before hstrict hvalid h
  generalize hb : selectBoundary src policy start before = b at hlines hcut hcases ⊢
  have hstart : b.start = start := by
    rw [← hb]
    rfl
  constructor
  case lineCount_le =>
    have hpos := hvalid.maxLines_pos
    have hlast : max start (b.cut - 1) = b.cut - 1 := by omega
    simp only [Part.lineCount, Part.ofBoundary, Part.ofSpan, hstart, hlast]
    omega
  case newline_free =>
    intro hlong k hk hkcount hnl
    have hcount : (Part.ofBoundary src ordinal total b).charCount = b.cut - start := by
      rw [← hstart]
      rfl
    rw [hcount] at hlong hkcount
    simp only [Part.ofBoundary, Part.ofSpan, String.toList_ofList, hstart] at hnl
    rw [Source.getElem?_slice, if_pos (by omega), ← Source.newlineAt_eq_true] at hnl
    -- A part that ends within the limits is not too long.
    rcases hcases with hle | ⟨-, hnone⟩
    · omega
    · rw [hnone (start + k) (by omega) (by omega)] at hnl
      cases hnl

theorem keepsLimits_of_mem_assemble (hstrict : policy.strategy = .strict)
    (hvalid : policy.Valid) {p : Part} (hp : p ∈ assemble src (boundaries src policy)) :
    KeepsLimits policy.limits p := by
  rcases Nat.eq_zero_or_pos src.size with hsize | hsize
  · rw [assemble_of_empty hsize, List.mem_singleton] at hp
    subst hp
    refine ⟨?_, fun hlong => absurd hlong (Nat.not_lt_zero _)⟩
    have hlines := hvalid.maxLines_pos
    simp only [Part.lineCount, Part.ofSpan, Nat.zero_sub, Nat.max_self, Nat.sub_self]
    exact hlines
  · obtain ⟨i, b, hb, rfl⟩ := exists_boundary_of_mem hsize hp
    obtain ⟨hlt, hselect⟩ := of_mem_boundariesFrom (List.mem_of_getElem? hb)
    rw [hselect]
    exact keepsLimits_ofBoundary hstrict hvalid hlt _ _

/-- With room for one line a boundary ends the line in which it begins. -/
theorem newline_not_mem_dropLast (hstrict : policy.strategy = .strict) (hvalid : policy.Valid)
    (hone : policy.limits.maxLines = 1) (h : start < src.size) :
    '\n' ∉ (src.slice start (selectBoundary src policy start before).cut).dropLast := by
  have hlines := lineOf_selectBoundary_cut_lt before hstrict hvalid h
  have hcut := lt_selectBoundary_cut policy before h
  have hle : (selectBoundary src policy start before).cut ≤ src.size := selectBoundary_cut_le
  generalize (selectBoundary src policy start before).cut = cut at hlines hcut hle
  rw [hone] at hlines
  rw [Source.dropLast_slice hle, ← List.count_eq_zero]
  have := src.lineOf_eq_add_count (show start ≤ cut - 1 by omega)
  omega

/-- With room for one line the parts of a text are its lines. -/
theorem map_text_assemble_eq_splitLines (hstrict : policy.strategy = .strict)
    (hvalid : policy.Valid) (hone : policy.limits.maxLines = 1) (hsize : 0 < src.size) :
    (assemble src (boundaries src policy)).map (·.text.toList) = splitLines src.toList := by
  have htexts : (assemble src (boundaries src policy)).map (·.text.toList) =
      (boundaries src policy).map fun b => src.slice b.start b.cut := by
    have := congrArg (List.map String.toList) (map_text_assemble hsize (boundaries src policy))
    simpa [List.map_map, Function.comp_def] using this
  have hflatten : ((boundaries src policy).map fun b => src.slice b.start b.cut).flatten =
      src.toList := by
    rw [← src.slice_zero_size]
    exact flatten_boundariesFrom (Nat.zero_le src.size)
  rw [htexts, ← hflatten]
  refine (splitLines_flatten ?_ ?_ ?_).symm
  · intro l hl hnil
    obtain ⟨b, hb, rfl⟩ := List.mem_map.1 hl
    obtain ⟨hcut, hle⟩ := bounds_of_mem_boundariesFrom hb
    have := congrArg List.length hnil
    rw [Source.length_slice, List.length_nil] at this
    omega
  · intro l hl
    obtain ⟨b, hb, rfl⟩ := List.mem_map.1 hl
    obtain ⟨hlt, hselect⟩ := of_mem_boundariesFrom hb
    rw [hselect]
    exact newline_not_mem_dropLast hstrict hvalid hone hlt
  · intro l hl
    rw [← List.map_dropLast] at hl
    obtain ⟨b, hb, rfl⟩ := List.mem_map.1 hl
    obtain ⟨hcut, hle⟩ := bounds_of_mem_boundariesFrom (List.dropLast_subset _ hb)
    exact Source.getLast?_slice_of_lineStartsAt hcut hle (lineStartsAt_cut_of_mem_dropLast hb)

/-- The parts of a strict split have at most as many lines as the limit, and more characters
than the limit only where one line has; with room for one line they are the lines. -/
theorem limits_of_strict (hvalid : policy.Valid) (hstrict : policy.strategy = .strict)
    (text : String) :
    ∃ ps, split text policy = .ok ps ∧ (∀ p ∈ ps, KeepsLimits policy.limits p) ∧
      (policy.limits.maxLines = 1 → text ≠ "" →
        ps.map (·.text.toList) = splitLines text.toList) := by
  refine ⟨_, split_of_valid hvalid text, fun p hp => ?_, fun hone hne => ?_⟩
  · exact keepsLimits_of_mem_assemble hstrict hvalid hp
  · have hsize : 0 < (Source.ofString text).size := by
      rw [Source.size_ofString, Nat.pos_iff_ne_zero]
      exact fun hzero => hne (String.length_eq_zero_iff.1 hzero)
    exact map_text_assemble_eq_splitLines hstrict hvalid hone hsize

/-- A line of seven characters where four are the limit, behind one of two. -/
theorem limits_of_strict_long_line :
    Policy.Valid ⟨⟨4, 1⟩, .strict, 0.3⟩ ∧
      ∃ ps, split "a\nlonger\n" ⟨⟨4, 1⟩, .strict, 0.3⟩ = .ok ps ∧
        (∀ p ∈ ps, KeepsLimits ⟨4, 1⟩ p) ∧
        ps.map (·.text.toList) = [['a', '\n'], ['l', 'o', 'n', 'g', 'e', 'r', '\n']] := by
  have hvalid : Policy.Valid ⟨⟨4, 1⟩, .strict, 0.3⟩ :=
    ⟨by decide, by decide, by decide, by decide⟩
  obtain ⟨ps, hps, hlimits, hlines⟩ := limits_of_strict hvalid rfl "a\nlonger\n"
  exact ⟨hvalid, ps, hps, hlimits, hlines rfl (by decide)⟩

end CodeParts.Split
