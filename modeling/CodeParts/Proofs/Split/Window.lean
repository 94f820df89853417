import CodeParts.Proofs.Lexer.Compose
import CodeParts.Split.Boundary

/-!
# Boundaries in a window

What `selectBoundary` finds in a text and in a window of it, rule by rule. The limits, the
move to a line end and the searches that look back agree up to the end of the window,
because they look at no character behind the tentative cut. A search that looks forward
agrees if what it finds lies in the window, and finds nothing in a window if there is
nothing in the text.
-/

namespace CodeParts.Split

open Lexer

/-- The candidate at an offset that is greater by `k`. -/
def Candidate.shift (k : Nat) (c : Candidate) : Candidate := { c with offset := k + c.offset }

@[simp] theorem Candidate.shift_offset (k : Nat) (c : Candidate) :
    (c.shift k).offset = k + c.offset := rfl

variable {src sub : Source} {a i t : Nat}

/-! ### Limits and line ends -/

theorem tentativeCut_add (w : Source.Window sub src a) (limits : Limits) (i : Nat) :
    a + tentativeCut sub limits i = min (tentativeCut src limits (a + i)) (a + sub.size) := by
  have hsize := w.add_size_le
  have hlines := w.afterNewline_add i limits.maxLines
  unfold tentativeCut
  omega

theorem snapToLineEnd_add (w : Source.Window sub src a) (i j : Nat) :
    a + snapToLineEnd sub i j = min (snapToLineEnd src (a + i) (a + j)) (a + sub.size) := by
  have hsize := w.add_size_le
  unfold snapToLineEnd
  by_cases hji : j ≤ i
  · rw [if_pos hji, if_pos (show a + j ≤ a + i by omega)]
    exact w.lineEndFrom_add i
  · rw [if_neg hji, if_neg (show ¬ a + j ≤ a + i by omega)]
    by_cases hj : sub.size ≤ j
    · -- The window ends before `a + j`, so it does not matter where the line ends.
      rw [if_pos hj]
      have hline := src.le_lineEndFrom (a + j)
      split
      · omega
      · split <;> omega
    · have hnl : src.newlineAt (a + j - 1) = sub.newlineAt (j - 1) := by
        rw [Nat.add_sub_assoc (by omega)]
        exact w.newlineAt_add (by omega)
      rw [if_neg hj, if_neg (show ¬ src.size ≤ a + j by omega), hnl]
      split
      · omega
      · exact w.lineEndFrom_add j

/-! ### Searches that look back -/

theorem newlineCandidate_add (w : Source.Window sub src a) (ht : t ≤ sub.size) :
    newlineCandidate src (a + i) (a + t) = (newlineCandidate sub i t).shift a := by
  unfold newlineCandidate
  rw [w.lastNewline_add ht]
  cases sub.lastNewline i t with
  | none => rfl
  | some nl =>
      simp only [Option.map_some, Nat.add_lt_add_iff_left]
      split <;> rfl

theorem lastClosing_add (w : Source.Window sub src a) (ht : t ≤ sub.size) :
    lastClosing src (a + i) (a + t) = (lastClosing sub i t).map (a + ·) := by
  have hall : ∀ token ∈ closingTokens, token ≠ [] := by decide
  -- Only that no token is empty matters, so the list of tokens is generalized.
  unfold lastClosing
  revert hall
  generalize closingTokens = tokens
  intro hall
  induction tokens with
  | nil => rfl
  | cons token tokens ih =>
      have htoken := hall token List.mem_cons_self
      rw [List.findSome?_cons, List.findSome?_cons, w.lastLiteral_add htoken ht]
      cases sub.lastLiteral token i t with
      | none => exact ih fun other hmem => hall other (List.mem_cons_of_mem _ hmem)
      | some pos => simp [Nat.add_assoc]

theorem lastDepthZeroLineEnd_add (w : Source.Window sub src a) (ht : t ≤ sub.size) :
    lastDepthZeroLineEnd src (a + i) (a + t) = (lastDepthZeroLineEnd sub i t).map (a + ·) :=
  w.lastLineEnd_add ht .initial

theorem strictCandidate_add (w : Source.Window sub src a) (ht : t ≤ sub.size) :
    strictCandidate src (a + i) (a + t) = (strictCandidate sub i t).shift a := by
  have hback (n : Nat) : max (a + i) (a + t - n) = a + max i (t - n) := by omega
  unfold strictCandidate
  rw [hback, hback, lastDepthZeroLineEnd_add w ht, lastClosing_add w ht]
  cases lastDepthZeroLineEnd sub (max i (t - depthZeroLookback)) t with
  | none =>
      rw [Option.map_none, Option.filter_none, Option.filter_none]
      cases lastClosing sub (max i (t - closingLookback)) t with
      | none => exact newlineCandidate_add w ht
      | some cut => rfl
  | some cut =>
      rw [Option.map_some, Option.filter_some, Option.filter_some]
      by_cases hcut : i < cut
      · simp [hcut, Candidate.shift]
      · simp only [Nat.add_lt_add_iff_left, hcut, decide_false, Bool.false_eq_true, if_false]
        cases lastClosing sub (max i (t - closingLookback)) t with
        | none => exact newlineCandidate_add w ht
        | some cut => rfl

/-! ### Searches that look forward -/

/-- A list in which fewer elements qualify has the same first one, if that still does. -/
theorem find?_of_imp {α : Type} {p q : α → Bool} {xs : List α} {x : α}
    (hx : xs.find? p = some x) (hq : q x = true) (himp : ∀ y, q y = true → p y = true) :
    xs.find? q = some x := by
  induction xs with
  | nil => cases hx
  | cons y ys ih =>
      by_cases hy : p y = true
      · rw [List.find?_cons_of_pos hy, Option.some.injEq] at hx
        subst hx
        exact List.find?_cons_of_pos hq
      · have hqy : ¬ q y = true := fun h => hy (himp y h)
        rw [List.find?_cons_of_neg hy] at hx
        rw [List.find?_cons_of_neg hqy]
        exact ih hx

variable {b c : Nat}

theorem ne_nil_of_mem_terminators {token : List Char} (h : token ∈ terminators) :
    token ≠ [] := by
  revert token
  decide

/-- A terminator of the window is one of the text. -/
theorem terminatorAt_of_sub (w : Source.Window sub src a) (hb : a + c ≤ b)
    (h : (terminatorAt sub c i).isSome = true) :
    (terminatorAt src b (a + i)).isSome = true := by
  obtain ⟨token, hmem, htoken⟩ := List.find?_isSome.1 h
  rw [Bool.and_eq_true, decide_eq_true_eq] at htoken
  refine List.find?_isSome.2 ⟨token, hmem, ?_⟩
  rw [Bool.and_eq_true, decide_eq_true_eq]
  exact ⟨w.literalAt_of_sub (ne_nil_of_mem_terminators hmem) htoken.1, by omega⟩

/-- The terminator of the text is that of the window, if it ends inside it. -/
theorem terminatorAt_add (w : Source.Window sub src a) (hc : c ≤ sub.size) (hb : a + c ≤ b)
    {token : List Char} (h : terminatorAt src b (a + i) = some token)
    (hstop : i + token.length ≤ c) : terminatorAt sub c i = some token := by
  have htoken := List.find?_some h
  rw [Bool.and_eq_true, decide_eq_true_eq] at htoken
  refine find?_of_imp h ?_ ?_
  · rw [Bool.and_eq_true, decide_eq_true_eq, ← w.literalAt_add (by omega)]
    exact ⟨htoken.1, hstop⟩
  · intro other hother
    rw [Bool.and_eq_true, decide_eq_true_eq] at hother ⊢
    rw [w.literalAt_add (by omega)]
    exact ⟨hother.1, by omega⟩

theorem firstTerminator_eq_none_iff :
    firstTerminator src a b = none ↔
      ∀ j, a ≤ j → j < b → (terminatorAt src b j).isSome = false := by
  rw [firstTerminator_eq, terminatorFrom]
  cases hfirst : firstIn (fun j => (terminatorAt src b j).isSome) a b with
  | none =>
      rw [firstIn_eq_none_iff] at hfirst
      exact ⟨fun _ => hfirst, fun _ => rfl⟩
  | some j =>
      obtain ⟨haj, hjb, hj, -⟩ := firstIn_eq_some_iff.1 hfirst
      obtain ⟨token, htoken⟩ := Option.isSome_iff_exists.1 hj
      constructor
      · intro h
        rw [Option.bind_some, htoken] at h
        cases h
      · intro h
        rw [h j haj hjb] at hj
        cases hj

theorem firstTerminator_eq_some_iff {o : Occurrence} :
    firstTerminator src a b = some o ↔
      ∃ token, terminatorAt src b o.start = some token ∧ o.stop = o.start + token.length ∧
        a ≤ o.start ∧ o.start < b ∧
        ∀ j, a ≤ j → j < o.start → (terminatorAt src b j).isSome = false := by
  rw [firstTerminator_eq, terminatorFrom, Option.bind_eq_some_iff]
  constructor
  · rintro ⟨j, hj, ho⟩
    obtain ⟨haj, hjb, -, hmin⟩ := firstIn_eq_some_iff.1 hj
    obtain ⟨token, htoken, rfl⟩ := Option.map_eq_some_iff.1 ho
    exact ⟨token, htoken, rfl, haj, hjb, hmin⟩
  · rintro ⟨token, htoken, hstop, hao, hob, hmin⟩
    refine ⟨o.start, firstIn_eq_some_iff.2 ⟨hao, hob, ?_, hmin⟩, ?_⟩
    · rw [htoken]
      rfl
    · rw [htoken, Option.map_some, ← hstop]

theorem firstTerminator_none_of_window (w : Source.Window sub src a) (hb : a + c ≤ b)
    (h : firstTerminator src (a + t) b = none) : firstTerminator sub t c = none := by
  rw [firstTerminator_eq_none_iff] at h ⊢
  intro j htj hjc
  rw [← Bool.not_eq_true]
  intro hj
  have := terminatorAt_of_sub w hb hj
  rw [h (a + j) (by omega) (by omega)] at this
  cases this

theorem firstTerminator_add (w : Source.Window sub src a) (hc : c ≤ sub.size)
    (hb : a + c ≤ b) {o : Occurrence} (h : firstTerminator src (a + t) b = some o)
    (hstop : o.stop ≤ a + c) :
    firstTerminator sub t c = some ⟨o.start - a, o.stop - a⟩ := by
  obtain ⟨token, htoken, ho, hle, hlt, hmin⟩ := firstTerminator_eq_some_iff.1 h
  have hlen : 0 < token.length :=
    List.length_pos_iff.2 (ne_nil_of_mem_terminators (List.mem_of_find?_eq_some htoken))
  rw [firstTerminator_eq_some_iff]
  refine ⟨token, ?_, ?_, ?_, ?_, ?_⟩
  · refine terminatorAt_add w hc hb ?_ ?_
    · rw [Nat.add_sub_cancel' (by omega)]
      exact htoken
    · simp only
      omega
  · simp only
    omega
  · simp only
    omega
  · simp only
    omega
  · -- An earlier terminator in the window would be an earlier one in the text.
    intro j htj hjo
    rw [← Bool.not_eq_true]
    intro hj
    have := terminatorAt_of_sub w hb hj
    simp only at hjo
    rw [hmin (a + j) (by omega) (by omega)] at this
    cases this

/-- A terminator ends at or before the end of the search. -/
theorem stop_le_of_firstTerminator {o : Occurrence} (h : firstTerminator src a b = some o) :
    o.stop ≤ b := by
  obtain ⟨token, htoken, ho, -, -, -⟩ := firstTerminator_eq_some_iff.1 h
  have := List.find?_some htoken
  rw [Bool.and_eq_true, decide_eq_true_eq] at this
  omega

/-! ### The search of a strategy -/

/-- The strategies that search within the limits or to the end of the text. -/
def Policy.Placeless (p : Policy) : Prop :=
  p.strategy = .strict ∨ p.strategy = .constructPriority

/-- The search in a window finds what the search in the text finds, if that lies in the
window. -/
theorem searchCandidate_add {policy : Policy} (hp : policy.Placeless)
    (w : Source.Window sub src a) (ht : t ≤ sub.size)
    (hoffset : min (searchCandidate src policy (a + i) (a + t)).offset src.size ≤ a + sub.size) :
    searchCandidate src policy (a + i) (a + t) = (searchCandidate sub policy i t).shift a := by
  have hsize := w.add_size_le
  unfold searchCandidate at hoffset ⊢
  rcases hp with hp | hp
  · rw [hp]
    exact strictCandidate_add w ht
  · rw [hp] at hoffset ⊢
    simp only [terminatorCandidate] at hoffset ⊢
    cases hfirst : firstTerminator src (a + t) src.size with
    | none =>
        rw [firstTerminator_none_of_window w hsize hfirst]
        exact newlineCandidate_add w ht
    | some o =>
        have hoffset : min o.stop src.size ≤ a + sub.size := by
          rw [hfirst] at hoffset
          exact hoffset
        have hle := stop_le_of_firstTerminator hfirst
        have hstop : a ≤ o.stop := by
          obtain ⟨token, -, ho, hstart, -⟩ := firstTerminator_eq_some_iff.1 hfirst
          omega
        rw [firstTerminator_add w (Nat.le_refl _) hsize hfirst (by omega)]
        simp only [Candidate.shift, Nat.add_sub_cancel' hstop]

end CodeParts.Split
