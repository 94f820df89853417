import CodeParts.Proofs.Split.Tiling
import CodeParts.Proofs.Split.Window
import Mathlib.Data.List.Forall2

/-!
# What stands behind a cut

The parts behind a cut are the parts of the rest of the text by itself, as far as their texts
and their places are concerned (`split_drop`). Nothing before the cut matters: the limits
count from the start of a part, no search looks back behind it, and the state that a scan
brings along is reported but never asked.

This holds of the strategies whose searches do not depend on where in the text a part begins.
The proof is a simulation of two runs whose states differ from the first boundary on
(`forall₂_boundariesFrom`).
-/

namespace CodeParts.Split

open Lexer

variable {src sub : Source} {policy : Policy} {a i : Nat} {s s' : State}

/-- The first part has the characters of the second one at offsets that are greater by
`k`. -/
structure Part.Behind (k : Nat) (p q : Part) : Prop where
  start_eq : p.start = k + q.start
  stop_eq : p.stop = k + q.stop
  text_eq : p.text = q.text
  firstLine_eq : p.firstLine = q.firstLine
  lastLine_eq : p.lastLine = q.lastLine
  digest_eq : p.digest = q.digest

/-- The first boundary ends the same span as the second one at offsets that are greater by
`k`, in whatever state. -/
structure Boundary.Behind (k : Nat) (b c : Boundary) : Prop where
  start_eq : b.start = k + c.start
  cut_eq : b.cut = k + c.cut

/-! ### One boundary -/

/-- In the rest of a text a boundary is selected as in the whole text, whatever the states
are. -/
theorem selectBoundary_behind (hp : policy.Placeless) (w : Source.Window sub src a)
    (hend : a + sub.size = src.size) (i : Nat) (s s' : State) :
    (selectBoundary src policy (a + i) s).Behind a (selectBoundary sub policy i s') := by
  have htentative := tentativeCut_add w policy.limits i
  have hle := tentativeCut_le src policy.limits (a + i)
  simp only [selectBoundary]
  generalize tentativeCut sub policy.limits i = t at htentative
  have heq : tentativeCut src policy.limits (a + i) = a + t := by omega
  have hcandidate : candidateAt src policy (a + i) (a + t) =
      (candidateAt sub policy i t).shift a := by
    unfold candidateAt
    by_cases ht : sub.size ≤ t
    · rw [if_pos ht, if_pos (by omega), ← hend]
      rfl
    · rw [if_neg ht, if_neg (by omega)]
      exact searchCandidate_add hp w (by omega) (by omega)
  have hsnap := snapToLineEnd_add w i (candidateAt sub policy i t).offset
  have hsize := snapToLineEnd_le src (a + i) (a + (candidateAt sub policy i t).offset)
  refine ⟨rfl, ?_⟩
  simp only [heq, hcandidate, Candidate.shift_offset]
  omega

/-! ### The run -/

/-- A run in the rest of a text goes along with the run in the whole text. -/
theorem forall₂_boundariesFrom (hp : policy.Placeless) (w : Source.Window sub src a)
    (hend : a + sub.size = src.size) (s : State) :
    List.Forall₂ (Boundary.Behind a) (boundariesFrom src policy (a + i) s)
      (boundariesFrom sub policy i s') := by
  induction i, s' using boundariesFrom.induct sub policy generalizing s with
  | case1 i s' hlt b ih =>
      have hstep := selectBoundary_behind hp w hend i s s'
      have hcut : (selectBoundary src policy (a + i) s).cut = a + b.cut := hstep.cut_eq
      rw [boundariesFrom_of_lt (show a + i < src.size by omega), boundariesFrom_of_lt hlt, hcut]
      exact .cons hstep (ih _)
  | case2 i s' hlt =>
      rw [boundariesFrom_of_le (show src.size ≤ a + i by omega), boundariesFrom_of_le (by omega)]
      exact .nil

/-- Behind a boundary the run goes on from its cut. -/
theorem drop_boundariesFrom {n : Nat} {b : Boundary}
    (h : (boundariesFrom src policy i s)[n]? = some b) :
    (boundariesFrom src policy i s).drop (n + 1) = boundariesFrom src policy b.cut b.after := by
  induction n generalizing i s with
  | zero =>
      by_cases hlt : i < src.size
      · rw [boundariesFrom_of_lt hlt, List.getElem?_cons_zero, Option.some.injEq] at h
        subst h
        rw [boundariesFrom_of_lt hlt]
        rfl
      · rw [boundariesFrom_of_le (by omega)] at h
        cases h
  | succ n ih =>
      by_cases hlt : i < src.size
      · rw [boundariesFrom_of_lt hlt] at h ⊢
        exact ih h
      · rw [boundariesFrom_of_le (by omega)] at h
        cases h

/-! ### The parts -/

theorem ofBoundary_behind (w : Source.Window sub src a) {b c : Boundary} (h : b.Behind a c)
    (hcut : c.cut ≤ sub.size) (ordinal total ordinal' total' : Nat) :
    Part.Behind a (Part.ofBoundary src ordinal total b)
      (Part.ofBoundary sub ordinal' total' c) := by
  have hslice : src.slice b.start b.cut = sub.slice c.start c.cut := by
    rw [h.start_eq, h.cut_eq]
    exact w.slice_add hcut
  constructor
  case start_eq => exact h.start_eq
  case stop_eq => exact h.cut_eq
  all_goals simp only [Part.ofBoundary, Part.ofSpan, hslice]

/-- If the boundaries of the rest of a text go along with those from the `n`-th on, so do the
parts. -/
theorem forall₂_assemble (w : Source.Window sub src a) (hpos : 0 < sub.size)
    {bs cs : List Boundary} {n : Nat} (h : List.Forall₂ (Boundary.Behind a) (bs.drop n) cs)
    (hcs : ∀ c ∈ cs, c.cut ≤ sub.size) :
    List.Forall₂ (Part.Behind a) ((assemble src bs).drop n) (assemble sub cs) := by
  have hsrc : 0 < src.size := by
    have := w.add_size_le
    omega
  rw [assemble_of_pos hsrc, assemble_of_pos hpos, ← List.map_drop, List.forall₂_map_left_iff,
    List.forall₂_map_right_iff, List.forall₂_iff_get]
  rw [List.forall₂_iff_get] at h
  obtain ⟨hlength, hget⟩ := h
  refine ⟨by simpa using hlength, ?_⟩
  intro k hk hk'
  rw [List.length_zipIdx] at hk'
  have hb := hget k (by omega) hk'
  simp only [List.get_eq_getElem, List.getElem_drop, List.getElem_zipIdx] at hb ⊢
  exact ofBoundary_behind w hb (hcs _ (List.getElem_mem hk')) _ _ _ _

/-! ### Texts -/

theorem window_drop {text : String} {c : Nat} (hc : c ≤ text.length) :
    Source.Window (Source.ofString (String.ofList (text.toList.drop c)))
      (Source.ofString text) c := by
  have hslice : text.toList.drop c = (Source.ofString text).slice c text.length := by
    have hlength : (text.toList.drop c).length = text.length - c := by
      rw [List.length_drop, String.length_toList]
    rw [Source.slice_eq, Source.toList_ofString, ← hlength, List.take_length]
  rw [hslice, Source.ofString_ofList]
  exact Source.window_slice hc (Nat.le_of_eq (Source.size_ofString text).symm)

/-- The parts of a text behind a cut inside it are those of the rest of the text. -/
theorem forall₂_assemble_drop (hp : policy.Placeless) {text : String} {n : Nat} {b : Boundary}
    (hb : (boundaries (Source.ofString text) policy)[n]? = some b) (hcut : b.cut < text.length) :
    List.Forall₂ (Part.Behind b.cut)
      ((assemble (Source.ofString text) (boundaries (Source.ofString text) policy)).drop (n + 1))
      (assemble (Source.ofString (String.ofList (text.toList.drop b.cut)))
        (boundaries (Source.ofString (String.ofList (text.toList.drop b.cut))) policy)) := by
  have w := window_drop (Nat.le_of_lt hcut)
  have hsize : (Source.ofString (String.ofList (text.toList.drop b.cut))).size =
      text.length - b.cut := by
    rw [Source.ofString_ofList, Source.size_ofList, List.length_drop, String.length_toList]
  have hend : b.cut + (Source.ofString (String.ofList (text.toList.drop b.cut))).size =
      (Source.ofString text).size := by
    rw [hsize, Source.size_ofString]
    omega
  refine forall₂_assemble w (by omega) ?_ fun c hc => (bounds_of_mem_boundariesFrom hc).2
  rw [boundaries, drop_boundariesFrom hb]
  exact forall₂_boundariesFrom (i := 0) hp w hend b.after

/-- The parts of a text behind a cut are those of the rest of the text by itself, with the
same texts and digests at offsets that are greater by that of the cut. -/
theorem split_drop (hvalid : policy.Valid)
    (hstrategy : policy.strategy = .strict ∨ policy.strategy = .constructPriority)
    (text : String) :
    ∃ ps, split text policy = .ok ps ∧
      ∀ n p, ps[n]? = some p → n + 1 < ps.length →
        ∃ qs, split (String.ofList (text.toList.drop p.stop)) policy = .ok qs ∧
          List.Forall₂ (Part.Behind p.stop) (ps.drop (n + 1)) qs := by
  refine ⟨_, split_of_valid hvalid text, fun n p hp hn => ⟨_, split_of_valid hvalid _, ?_⟩⟩
  rcases Nat.eq_zero_or_pos (Source.ofString text).size with hzero | hpos
  · rw [assemble_of_empty hzero] at hn
    exact absurd hn (by simp)
  · rw [length_assemble hpos] at hn
    rw [getElem?_assemble hpos, Option.map_eq_some_iff] at hp
    obtain ⟨b, hb, rfl⟩ := hp
    -- Another boundary follows, so the cut is not the end of the text.
    have hnext := List.getElem?_eq_getElem hn
    obtain ⟨hstart, -⟩ := start_of_next hb hnext
    obtain ⟨-, hlt⟩ := getElem?_boundariesFrom hnext
    rw [hstart, Source.size_ofString] at hlt
    exact forall₂_assemble_drop hstrategy hb hlt

/-- A comment over three lines: by itself the rest of it is no comment, and is cut alike. -/
theorem split_drop_comment :
    ∃ ps p qs, split "/*\n\x7d\n*/\n" ⟨⟨80, 1⟩, .constructPriority, 0.3⟩ = .ok ps ∧
      ps[0]? = some p ∧ p.stop = 3 ∧
      split "\x7d\n*/\n" ⟨⟨80, 1⟩, .constructPriority, 0.3⟩ = .ok qs ∧
      List.Forall₂ (Part.Behind 3) (ps.drop 1) qs ∧ qs.length = 2 := by
  have hvalid : Policy.Valid ⟨⟨80, 1⟩, .constructPriority, 0.3⟩ :=
    ⟨by decide, by decide, by decide, by decide⟩
  obtain ⟨ps, hps, hall⟩ := split_drop hvalid (.inr rfl) "/*\n\x7d\n*/\n"
  have hb : (boundaries (Source.ofString "/*\n\x7d\n*/\n")
      ⟨⟨80, 1⟩, .constructPriority, 0.3⟩)[0]? =
      some ⟨0, .initial, 3, ⟨3, .lastNewline⟩, 3, ⟨.blockComment, 0, false⟩⟩ := by
    decide +kernel
  have hp := getElem?_assemble_of_boundary hb
  have hlength : ps.length = 3 := by
    rw [(split_eq_ok_iff.1 hps).2, length_assemble (by decide)]
    decide +kernel
  rw [← (split_eq_ok_iff.1 hps).2] at hp
  obtain ⟨qs, hqs, hbehind⟩ := hall 0 _ hp (by omega)
  have hcount := hbehind.length_eq
  rw [List.length_drop, hlength] at hcount
  exact ⟨ps, _, qs, hps, hp, rfl, hqs, hbehind, hcount.symm⟩

end CodeParts.Split
