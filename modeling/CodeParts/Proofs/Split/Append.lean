import CodeParts.Proofs.Split.Tiling
import CodeParts.Proofs.Split.Window

/-!
# Appending to a text

Text that is appended can change where the last part ends, and nothing before it: under the
strict strategy all other parts of the longer text are those of the shorter one, field by
field but for their number (`split_append`).

A cut before the end of the shorter text was chosen by looking no further than that end
(`selectBoundary_add`), and the parts after it begin at the same offset and in the same state
in both texts (`boundariesFrom_append`).
-/

namespace CodeParts.Split

open Lexer

variable {src sub : Source} {policy : Policy} {before : State} {a i : Nat}

/-- The boundary at offsets that are greater by `k`. -/
def Boundary.shift (k : Nat) (b : Boundary) : Boundary :=
  { b with
    start := k + b.start
    tentative := k + b.tentative
    candidate := b.candidate.shift k
    cut := k + b.cut }

theorem Boundary.shift_zero : Boundary.shift 0 = id := by
  funext b
  simp only [Boundary.shift, Candidate.shift, Nat.zero_add, id_eq]

/-! ### One boundary -/

/-- A boundary inside a window is selected there as in the whole text. -/
theorem selectBoundary_add (hstrict : policy.strategy = .strict) (w : Source.Window sub src a)
    (hcut : (selectBoundary sub policy i before).cut < sub.size) :
    selectBoundary src policy (a + i) before = (selectBoundary sub policy i before).shift a := by
  have hsize := w.add_size_le
  have htentative := tentativeCut_add w policy.limits i
  simp only [selectBoundary] at hcut ⊢
  generalize tentativeCut sub policy.limits i = t at htentative hcut ⊢
  -- The limits end inside the window, or the cut would be its end.
  have ht : t < sub.size := by
    refine Nat.lt_of_not_le fun hle => ?_
    rw [candidateAt, if_pos hle] at hcut
    have hend := min_le_snapToLineEnd sub i sub.size
    rw [Nat.min_self] at hend
    exact Nat.not_lt_of_le hend hcut
  have heq : tentativeCut src policy.limits (a + i) = a + t := by omega
  have hcandidate : candidateAt src policy (a + i) (a + t) =
      (candidateAt sub policy i t).shift a := by
    rw [candidateAt, candidateAt, if_neg (by omega), if_neg (by omega), searchCandidate,
      searchCandidate, hstrict]
    exact strictCandidate_add w (Nat.le_of_lt ht)
  have hsnap := snapToLineEnd_add w i (candidateAt sub policy i t).offset
  generalize snapToLineEnd sub i (candidateAt sub policy i t).offset = cut at hcut hsnap ⊢
  have hsnap : snapToLineEnd src (a + i) (a + (candidateAt sub policy i t).offset) = a + cut := by
    omega
  simp only [Boundary.shift, heq, hcandidate, Candidate.shift_offset, hsnap,
    w.scan_add (Nat.le_of_lt hcut)]

/-! ### The run -/

/-- All boundaries of a window but the last are boundaries of the whole text, and there are
others behind them. -/
theorem boundariesFrom_append (before : State) (hstrict : policy.strategy = .strict)
    (w : Source.Window sub src a) (hi : i < sub.size) :
    ∃ rest, rest ≠ [] ∧ boundariesFrom src policy (a + i) before =
      (boundariesFrom sub policy i before).dropLast.map (Boundary.shift a) ++ rest := by
  have hsize := w.add_size_le
  induction i, before using boundariesFrom.induct sub policy with
  | case1 i before hlt b ih =>
      have hsrc : a + i < src.size := by omega
      have hcons : boundariesFrom sub policy i before =
          b :: boundariesFrom sub policy b.cut b.after := boundariesFrom_of_lt hlt
      rw [hcons]
      by_cases hcut : b.cut < sub.size
      · obtain ⟨rest, hne, hrest⟩ := ih hcut
        have hb : selectBoundary src policy (a + i) before = b.shift a :=
          selectBoundary_add hstrict w hcut
        refine ⟨rest, hne, ?_⟩
        rw [boundariesFrom_of_lt hsrc, hb,
          List.dropLast_cons_of_ne_nil (boundariesFrom_ne_nil hcut), List.map_cons,
          List.cons_append]
        exact congrArg (b.shift a :: ·) hrest
      · -- The boundary is the last one of the window.
        refine ⟨boundariesFrom src policy (a + i) before, boundariesFrom_ne_nil hsrc, ?_⟩
        rw [boundariesFrom_of_le (Nat.le_of_not_lt hcut)]
        rfl
  | case2 i before hlt => exact absurd hi hlt

/-! ### The parts -/

/-- A part of the beginning of a text is a part of the text. -/
theorem ofBoundary_window (w : Source.Window sub src 0) {b : Boundary} (hle : b.start ≤ b.cut)
    (hcut : b.cut ≤ sub.size) (ordinal total total' : Nat) :
    Part.ofBoundary src ordinal total b =
      { Part.ofBoundary sub ordinal total' b with total := total } := by
  have hslice : src.slice b.start b.cut = sub.slice b.start b.cut := by
    have := w.slice_add (i := b.start) hcut
    rwa [Nat.zero_add, Nat.zero_add] at this
  have hline {j : Nat} (hj : j ≤ sub.size) : src.lineOf j = sub.lineOf j := by
    have hzero : src.lineOf 0 = 0 := by
      rw [Source.lineOf_eq, List.take_zero, List.count_nil]
    have := w.lineOf_add hj
    rwa [hzero, Nat.zero_add, Nat.zero_add] at this
  have hstart : src.lineOf b.start = sub.lineOf b.start := hline (by omega)
  have hlast : src.lineOf (max b.start (b.cut - 1)) = sub.lineOf (max b.start (b.cut - 1)) :=
    hline (by omega)
  simp only [Part.ofBoundary, Part.ofSpan, hslice, hstart, hlast]

/-- If all boundaries of the beginning of a text but the last are boundaries of the text, so
are the parts. -/
theorem take_assemble (w : Source.Window sub src 0) (hpos : 0 < sub.size)
    {bs cs rest : List Boundary} (hcs : cs = bs.dropLast ++ rest)
    (hbs : ∀ b ∈ bs, b.start < b.cut ∧ b.cut ≤ sub.size) :
    (assemble src cs).take (bs.length - 1) =
      (assemble sub bs).dropLast.map fun p => { p with total := cs.length } := by
  have hsrc : 0 < src.size := Nat.lt_of_lt_of_le hpos (by simpa using w.add_size_le)
  refine List.ext_getElem? fun n => ?_
  rw [List.getElem?_take, List.getElem?_map, List.getElem?_dropLast, length_assemble hpos,
    getElem?_assemble hsrc, getElem?_assemble hpos]
  by_cases hn : n < bs.length - 1
  · have hget : cs[n]? = bs[n]? := by
      rw [hcs, List.getElem?_append_left (by rwa [List.length_dropLast]), List.getElem?_dropLast,
        if_pos hn]
    rw [if_pos hn, if_pos hn, hget]
    cases hb : bs[n]? with
    | none => rfl
    | some b =>
        obtain ⟨hlt, hle⟩ := hbs b (List.mem_of_getElem? hb)
        exact congrArg some (ofBoundary_window w (Nat.le_of_lt hlt) hle _ _ _)
  · rw [if_neg hn, if_neg hn]
    rfl

/-- A text that is appended to leaves all parts but the last as they are. -/
theorem assemble_append (hstrict : policy.strategy = .strict) (w : Source.Window sub src 0)
    (hpos : 0 < sub.size) :
    (assemble sub (boundaries sub policy)).length ≤
        (assemble src (boundaries src policy)).length ∧
      (assemble src (boundaries src policy)).take
          ((assemble sub (boundaries sub policy)).length - 1) =
        (assemble sub (boundaries sub policy)).dropLast.map fun p =>
          { p with total := (assemble src (boundaries src policy)).length } := by
  have hsrc : 0 < src.size := Nat.lt_of_lt_of_le hpos (by simpa using w.add_size_le)
  obtain ⟨rest, hne, hrest⟩ : ∃ rest, rest ≠ [] ∧ boundaries src policy =
      (boundaries sub policy).dropLast ++ rest := by
    obtain ⟨rest, hne, hrest⟩ := boundariesFrom_append .initial hstrict w hpos
    rw [Boundary.shift_zero, List.map_id] at hrest
    exact ⟨rest, hne, hrest⟩
  rw [length_assemble hpos, length_assemble hsrc]
  refine ⟨?_, take_assemble w hpos hrest fun b hb => bounds_of_mem_boundariesFrom hb⟩
  have hlen := List.length_pos_iff.2 hne
  rw [hrest, List.length_append, List.length_dropLast]
  omega

/-! ### Texts -/

theorem window_append (text more : String) :
    Source.Window (Source.ofString text) (Source.ofString (text ++ more)) 0 where
  add_size_le := by
    rw [Source.size_ofString, Source.size_ofString, String.length_append]
    omega
  charAt_add := by
    intro i hi
    rw [Source.size_ofString, ← String.length_toList] at hi
    rw [Source.charAt_eq, Source.charAt_eq, Source.toList_ofString, Source.toList_ofString,
      String.toList_append, Nat.zero_add, List.getElem?_append_left hi]

/-- A text that is appended to a text changes its last strict part at most: there are not
fewer parts, and all others are the same in every respect but how many parts there are. -/
theorem split_append (hvalid : policy.Valid) (hstrict : policy.strategy = .strict)
    (text more : String) :
    ∃ ps qs, split text policy = .ok ps ∧ split (text ++ more) policy = .ok qs ∧
      ps.length ≤ qs.length ∧
      qs.take (ps.length - 1) = ps.dropLast.map fun p => { p with total := qs.length } := by
  refine ⟨_, _, split_of_valid hvalid text, split_of_valid hvalid (text ++ more), ?_⟩
  rcases Nat.eq_zero_or_pos (Source.ofString text).size with hzero | hpos
  · -- The empty text has one part only.
    rw [assemble_of_empty hzero]
    exact ⟨List.length_pos_iff.2 (assemble_ne_nil _ policy), List.take_zero⟩
  · exact assemble_append hstrict (window_append text more) hpos

/-- Three lines, two to a part, and more of the third line: the first part stays. -/
theorem split_append_line :
    ∃ ps qs p, split "a\nb\nc" ⟨⟨80, 2⟩, .strict, 0.3⟩ = .ok ps ∧
      split ("a\nb\nc" ++ "d\ne\nf\n") ⟨⟨80, 2⟩, .strict, 0.3⟩ = .ok qs ∧
      ps.length = 2 ∧ qs.length = 3 ∧ ps[0]? = some p ∧ p.text = "a\nb\n" ∧
      qs[0]? = some { p with total := 3 } := by
  have hvalid : Policy.Valid ⟨⟨80, 2⟩, .strict, 0.3⟩ :=
    ⟨by decide, by decide, by decide, by decide⟩
  obtain ⟨ps, qs, hps, hqs, -, htake⟩ := split_append hvalid rfl "a\nb\nc" "d\ne\nf\n"
  have hb : (boundaries (Source.ofString "a\nb\nc") ⟨⟨80, 2⟩, .strict, 0.3⟩)[0]? =
      some ⟨0, .initial, 4, ⟨4, .depthZeroNewline⟩, 4, .initial⟩ := by
    decide +kernel
  have hp := getElem?_assemble_of_boundary hb
  have hlength : ps.length = 2 := by
    rw [(split_eq_ok_iff.1 hps).2, length_assemble (by decide)]
    decide +kernel
  have hlength' : qs.length = 3 := by
    rw [(split_eq_ok_iff.1 hqs).2, length_assemble (by decide)]
    decide +kernel
  rw [← (split_eq_ok_iff.1 hps).2] at hp
  have hfirst := congrArg (·[0]?) htake
  simp only [hlength, hlength', List.getElem?_take, List.getElem?_map, List.getElem?_dropLast,
    hp] at hfirst
  exact ⟨ps, qs, _, hps, hqs, hlength, hlength', hp, rfl, hfirst⟩

end CodeParts.Split
