import CodeParts.Proofs.Lexer.Compose

/-!
# A scan, step by step

The steps of a scan are defined by recursion on a list of characters. For a text it is
often easier to go from offset to offset: `Source.steps_of_charAt` unfolds one step of the
scan of `[a, b)` at the character at `a`, and `Source.of_steps_eq_cons` reads off what the
first step of a scan must be.

Any step of a scan is the first one of a scan that begins at its offset, in the state that
the steps before it lead to (`Source.steps_eq_append`). So a statement about all steps of all
scans need only be proved of first steps.
-/

namespace CodeParts.Lexer

/-- The state to which the steps `done` lead from the state `s`. -/
def stateAfter (s : State) (done : List Step) : State := (done.getLast?.map Step.state).getD s

@[simp] theorem stateAfter_nil (s : State) : stateAfter s [] = s := rfl

@[simp] theorem stateAfter_cons (s : State) (x : Step) (xs : List Step) :
    stateAfter s (x :: xs) = stateAfter x.state xs := by
  rw [stateAfter, stateAfter, List.getLast?_cons, Option.map_some, Option.getD_some]
  cases xs.getLast? <;> rfl

/-- Behind a step the state from which it was taken no longer matters. -/
theorem stateAfter_append_cons (s : State) (xs : List Step) (y : Step) (ys : List Step) :
    stateAfter s (xs ++ y :: ys) = stateAfter y.state ys := by
  induction xs generalizing s with
  | nil => exact stateAfter_cons s y ys
  | cons x xs ih => rw [List.cons_append, stateAfter_cons, ih]

/-- What every step leaves behind is left behind by the last one. -/
theorem stateAfter_of_forall {P : State → Prop} {s : State} {xs : List Step} (hs : P s)
    (h : ∀ x ∈ xs, P x.state) : P (stateAfter s xs) := by
  induction xs generalizing s with
  | nil => exact hs
  | cons x xs ih =>
      rw [stateAfter_cons]
      exact ih (h x List.mem_cons_self) fun y hy => h y (List.mem_cons_of_mem x hy)

theorem Mode.isCode_iff {m : Mode} : m.isCode = true ↔ m = .code := by
  cases m <;> simp [isCode]

theorem advance_width (s : State) (c : Char) (next : Option Char) :
    (s.advance c next).width = 1 ∨ (s.advance c next).width = 2 := by
  unfold State.advance
  cases s.mode with
  | code =>
      simp only
      split
      · exact .inr rfl
      · split
        · exact .inr rfl
        · exact .inl rfl
  | lineComment => exact .inl rfl
  | blockComment =>
      simp only
      split
      · exact .inr rfl
      · exact .inl rfl
  | quoted q => exact .inl rfl

end CodeParts.Lexer

namespace CodeParts.Source

open Lexer

variable {src : Source} {a b : Nat} {s : State} {c : Char} {x : Step} {pre post : List Step}

/-- What a scan that ends at `b` sees ahead of the character at offset `i`. -/
def peek (src : Source) (b i : Nat) : Option Char := if i + 1 < b then src.charAt (i + 1) else none

theorem peek_eq_some {i : Nat} {d : Char} :
    src.peek b i = some d ↔ i + 1 < b ∧ src.charAt (i + 1) = some d := by
  rw [peek]
  split
  · next h => simp [h]
  · next h => simp [h]

theorem exists_charAt (h : a < src.size) : ∃ c, src.charAt a = some c :=
  ⟨src.chars[a], Array.getElem?_eq_getElem h⟩

theorem lt_size_of_charAt (h : src.charAt a = some c) : a < src.size :=
  (Array.getElem?_eq_some_iff.1 h).1

theorem slice_of_charAt (hb : a < b) (hc : src.charAt a = some c) :
    src.slice a b = c :: src.slice (a + 1) b := by
  refine List.ext_getElem? fun i => ?_
  cases i with
  | zero => rw [getElem?_slice, if_pos (by omega), Nat.add_zero, hc, List.getElem?_cons_zero]
  | succ i =>
      rw [List.getElem?_cons_succ, getElem?_slice, getElem?_slice, Nat.add_right_comm,
        Nat.add_assoc]
      by_cases hi : i + 1 < b - a
      · rw [if_pos hi, if_pos (by omega)]
      · rw [if_neg hi, if_neg (by omega)]

/-- Nothing is left to scan. -/
theorem steps_eq_nil (h : min b src.size ≤ a) (s : State) : src.steps a b s = [] := by
  rw [steps, slice_eq_nil h]
  rfl

/-- The first step of a scan, and the rest from the state and the offset to which it leads. -/
theorem steps_of_charAt (hb : a < b) (hc : src.charAt a = some c) (s : State) :
    src.steps a b s =
      ⟨a, c, (s.advance c (src.peek b a)).state⟩ ::
        src.steps (a + (s.advance c (src.peek b a)).width) b
          (s.advance c (src.peek b a)).state := by
  have hwidth := advance_width s c (src.peek b a)
  rw [steps, slice_of_charAt hb hc]
  cases hnext : src.peek b a with
  | none =>
      -- The character is the last one of the range.
      have hlast : min b src.size ≤ a + 1 := by
        rw [peek] at hnext
        split at hnext
        · have hsize : src.size ≤ a + 1 := Array.getElem?_eq_none_iff.1 hnext
          omega
        · omega
      rw [hnext] at hwidth
      rw [slice_eq_nil hlast, steps_eq_nil (by omega)]
      rfl
  | some d =>
      have hd := peek_eq_some.1 hnext
      rw [hnext] at hwidth
      rw [slice_of_charAt hd.1 hd.2, Lexer.steps]
      rcases hwidth with hone | htwo
      · rw [if_neg (by omega), hone, steps, slice_of_charAt hd.1 hd.2]
      · rw [if_pos htwo, htwo, steps]

/-- The first step of a scan stands at its start, and the other steps are those of the
scan that goes on behind it. -/
theorem of_steps_eq_cons (h : src.steps a b s = x :: post) :
    a < b ∧ src.charAt a = some x.char ∧ x.offset = a ∧
      x.state = (s.advance x.char (src.peek b a)).state ∧
      post = src.steps (a + (s.advance x.char (src.peek b a)).width) b x.state := by
  by_cases hlt : a < min b src.size
  · obtain ⟨c, hc⟩ : ∃ c, src.charAt a = some c := exists_charAt (by omega)
    rw [steps_of_charAt (by omega) hc, List.cons.injEq] at h
    obtain ⟨rfl, rfl⟩ := h
    exact ⟨by omega, hc, rfl, rfl, rfl⟩
  · rw [steps_eq_nil (by omega)] at h
    cases h

/-- Every step of a scan begins a scan at its own offset. -/
theorem steps_eq_append (h : src.steps a b s = pre ++ x :: post) :
    a ≤ x.offset ∧ src.steps x.offset b (stateAfter s pre) = x :: post := by
  induction pre generalizing a s with
  | nil =>
      obtain ⟨-, -, hoffset, -⟩ := of_steps_eq_cons h
      rw [hoffset]
      exact ⟨Nat.le_refl a, h⟩
  | cons y pre ih =>
      obtain ⟨-, -, -, -, hrest⟩ := of_steps_eq_cons h
      obtain ⟨hle, hsteps⟩ := ih hrest.symm
      rw [stateAfter_cons]
      exact ⟨by omega, hsteps⟩

/-- A step of a scan reads the character at its offset. -/
theorem charAt_of_mem_steps (h : x ∈ src.steps a b s) :
    a ≤ x.offset ∧ x.offset < b ∧ src.charAt x.offset = some x.char := by
  obtain ⟨pre, post, hsteps⟩ := List.append_of_mem h
  obtain ⟨hle, hfirst⟩ := steps_eq_append hsteps
  obtain ⟨hlt, hc, -⟩ := of_steps_eq_cons hfirst
  exact ⟨hle, hlt, hc⟩

/-- A scan ends in the state to which its steps lead. -/
theorem scan_eq_stateAfter (src : Source) (a b : Nat) (s : State) :
    src.scan a b s = stateAfter s (src.steps a b s) :=
  finish_eq a s (src.slice a b)

end CodeParts.Source
