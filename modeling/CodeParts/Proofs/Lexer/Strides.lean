import CodeParts.Proofs.Lexer.LineEnds
import CodeParts.Proofs.Lexer.Word

/-!
# The steps of a scan tile its range

A step of a scan reads one character, or both of a marker, and the next step begins right
behind it. So the steps of a scan lie one behind the other from the start of the range to its
end (`TilesRange`): nothing is passed over, nothing is read twice, and a marker that the end of
the range cuts in two is none. What is known of a single step carries over to all of them,
because every step is the first one of a scan that begins at its offset
(`Source.steps_eq_append`). A machine, which counts depths in words, takes the same steps, and with
the same depths if they fit.
-/

namespace CodeParts.Source

open Lexer

variable {src : Source} {a b i : Nat} {s : State} {c : Char} {m : Mode} {x y : Step}
  {pre post : List Step}

/-! ### How far a step reaches -/

/-- At offset `i` of a range that ends at `b` stands a whole marker of two characters that is
read as one in the given mode. -/
inductive MarkerAt (src : Source) (b i : Nat) : Mode → Prop
  | lineComment : i + 1 < b → src.charAt i = some '/' → src.charAt (i + 1) = some '/' →
      MarkerAt src b i .code
  | blockComment : i + 1 < b → src.charAt i = some '/' → src.charAt (i + 1) = some '*' →
      MarkerAt src b i .code
  | commentEnd : i + 1 < b → src.charAt i = some '*' → src.charAt (i + 1) = some '/' →
      MarkerAt src b i .blockComment

/-- The step that reads offset `i` in the given mode reads up to offset `j`: both characters of
a marker, or one character that begins none. -/
def StepReaches (src : Source) (b i : Nat) (m : Mode) (j : Nat) : Prop :=
  src.MarkerAt b i m ∧ j = i + 2 ∨ ¬ src.MarkerAt b i m ∧ j = i + 1

/-- A transition is two characters wide just at a marker. -/
theorem width_advance_eq_two_iff (hc : src.charAt i = some c) :
    (s.advance c (src.peek b i)).width = 2 ↔ src.MarkerAt b i s.mode := by
  constructor
  · intro h
    unfold State.advance at h
    cases hmode : s.mode with
    | code =>
        simp only [hmode] at h
        split at h
        · next hline =>
          obtain ⟨rfl, hnext⟩ := hline
          obtain ⟨hlt, hd⟩ := peek_eq_some.1 hnext
          exact .lineComment hlt hc hd
        · split at h
          · next hblock =>
            obtain ⟨rfl, hnext⟩ := hblock
            obtain ⟨hlt, hd⟩ := peek_eq_some.1 hnext
            exact .blockComment hlt hc hd
          · cases h
    | lineComment =>
        simp only [hmode] at h
        cases h
    | blockComment =>
        simp only [hmode] at h
        split at h
        · next hend =>
          obtain ⟨rfl, hnext⟩ := hend
          obtain ⟨hlt, hd⟩ := peek_eq_some.1 hnext
          exact .commentEnd hlt hc hd
        · cases h
    | quoted q =>
        simp only [hmode] at h
        cases h
  · intro h
    generalize hmode : s.mode = m at h
    unfold State.advance
    cases h with
    | lineComment hlt hslash hd =>
        rw [hc, Option.some.injEq] at hslash
        simp [hmode, hslash, peek_eq_some.2 ⟨hlt, hd⟩]
    | blockComment hlt hslash hd =>
        rw [hc, Option.some.injEq] at hslash
        simp [hmode, hslash, peek_eq_some.2 ⟨hlt, hd⟩]
    | commentEnd hlt hstar hd =>
        rw [hc, Option.some.injEq] at hstar
        simp [hmode, hstar, peek_eq_some.2 ⟨hlt, hd⟩]

theorem stepReaches_width (hc : src.charAt i = some c) :
    src.StepReaches b i s.mode (i + (s.advance c (src.peek b i)).width) := by
  rcases advance_width s c (src.peek b i) with hone | htwo
  · refine .inr ⟨fun hmarker => ?_, by rw [hone]⟩
    rw [← width_advance_eq_two_iff (s := s) hc, hone] at hmarker
    cases hmarker
  · exact .inl ⟨(width_advance_eq_two_iff hc).1 htwo, by rw [htwo]⟩

/-- A step stays inside the range. -/
theorem StepReaches.le {j : Nat} (h : src.StepReaches b i m j) (hib : i < min b src.size) :
    j ≤ min b src.size := by
  rcases h with ⟨hmarker, rfl⟩ | ⟨-, rfl⟩
  · cases hmarker with
    | lineComment hlt _ hd | blockComment hlt _ hd | commentEnd hlt _ hd =>
        have := lt_size_of_charAt hd
        omega
  · exact hib

/-- No marker begins with a newline. -/
theorem not_markerAt_of_newlineAt (h : src.newlineAt i = true) (m : Mode) :
    ¬ src.MarkerAt b i m := by
  rw [newlineAt_eq_true] at h
  intro hmarker
  cases hmarker with
  | lineComment _ hc _ | blockComment _ hc _ | commentEnd _ hc _ =>
      rw [h] at hc
      cases hc

/-! ### The first step and the step behind another -/

/-- A scan begins with a step at its start, if there is anything to scan. -/
theorem head?_steps (src : Source) (a b : Nat) (s : State) :
    (src.steps a b s).head?.map Step.offset = if a < min b src.size then some a else none := by
  by_cases hlt : a < min b src.size
  · obtain ⟨c, hc⟩ := exists_charAt (show a < src.size by omega)
    rw [if_pos hlt, steps_of_charAt (by omega) hc]
    rfl
  · rw [if_neg hlt, steps_eq_nil (by omega)]
    rfl

/-- Behind a step the scan goes on where that has come to. -/
theorem exists_stepReaches (h : src.steps a b s = pre ++ x :: post) :
    ∃ j, src.StepReaches b x.offset (stateAfter s pre).mode j ∧ j ≤ min b src.size ∧
      post = src.steps j b x.state := by
  obtain ⟨-, hfirst⟩ := steps_eq_append h
  obtain ⟨hlt, hc, -, -, hpost⟩ := of_steps_eq_cons hfirst
  have hreach := stepReaches_width (b := b) (s := stateAfter s pre) hc
  have hsize := lt_size_of_charAt hc
  exact ⟨_, hreach, hreach.le (by omega), hpost⟩

/-! ### The tiling -/

/-- Steps from the state `s` lie one behind the other from `a` to `b`, both clamped to the text,
and lead to the state `last`. -/
structure TilesRange (src : Source) (a b : Nat) (s : State) (xs : List Step) (last : State) :
    Prop where
  /-- The first step begins at the start of the range, and an empty range has none. -/
  first : xs.head?.map Step.offset = if a < min b src.size then some a else none
  next : ∀ pre x y post, xs = pre ++ x :: y :: post →
    src.StepReaches b x.offset (stateAfter s pre).mode y.offset
  /-- The last step reaches the end of the range. -/
  reaches : ∀ pre x, xs = pre ++ [x] →
    src.StepReaches b x.offset (stateAfter s pre).mode (min b src.size)
  char_eq : ∀ x ∈ xs, src.charAt x.offset = some x.char
  /-- A newline has a step of its own. -/
  newline : ∀ i, a ≤ i → i < b → src.newlineAt i = true →
    (∃ x ∈ xs, x.offset = i) ∧ ∀ m, ¬ src.MarkerAt b i m
  last_eq : last = (xs.getLast?.map Step.state).getD s
  escaped : s.EscapedInQuotes → ∀ x ∈ xs, x.state.EscapedInQuotes
  /-- A machine, which counts the depth in a word, takes the same steps, but for their depths. -/
  lexical_words : (src.wordSteps a b s).map Step.lexical = xs.map Step.lexical
  /-- As long as the depths fit, it has those too. -/
  words : DepthsFit s xs → src.wordSteps a b s = xs ∧ src.wordScan a b s = last
  /-- Then only a brace of code changes the depth, by one at most. -/
  depth : DepthsFit s xs → ∀ pre x post, xs = pre ++ x :: post →
    x.state.depth = (stateAfter s pre).depth ∨
      (stateAfter s pre).mode = .code ∧
        (x.char = '\x7b' ∧ x.state.depth = (stateAfter s pre).depth + 1 ∨
          x.char = '\x7d' ∧ x.state.depth = (stateAfter s pre).depth - 1)

/-- The steps of every scan tile its range. Each begins where the one before has come to, two
characters behind it at a marker of its mode and one elsewhere, and the last one reaches the end;
so every newline has a step of its own. The scan ends in the state of its last step. If the escape
flag was set in a literal alone, it is so behind every step. As long as the depths fit into machine
words, a machine has the same ones, and they change by one at most, at a brace of code. -/
theorem tiling_of_steps (src : Source) (a b : Nat) (s : State) :
    TilesRange src a b s (src.steps a b s) (src.scan a b s) := by
  constructor
  case first => exact src.head?_steps a b s
  case next =>
    intro pre x y post h
    obtain ⟨j, hreach, -, hpost⟩ := exists_stepReaches h
    obtain ⟨-, -, hoffset, -⟩ := of_steps_eq_cons hpost.symm
    rwa [hoffset]
  case reaches =>
    intro pre x h
    obtain ⟨j, hreach, hle, hpost⟩ := exists_stepReaches h
    -- Nothing is left to scan where the last step has come to.
    have hnone := src.head?_steps j b x.state
    rw [← hpost, List.head?_nil, Option.map_none] at hnone
    by_cases hlt : j < min b src.size
    · rw [if_pos hlt] at hnone
      cases hnone
    · rwa [← Nat.le_antisymm hle (Nat.le_of_not_lt hlt)]
  case char_eq => exact fun x hx => (charAt_of_mem_steps hx).2.2
  case newline =>
    intro i hai hib hnl
    refine ⟨⟨⟨i, '\n', src.scan a (i + 1) s⟩, ?_, rfl⟩, not_markerAt_of_newlineAt hnl⟩
    rw [steps_of_newlineAt (Nat.lt_succ_of_le hai) hib hnl]
    exact List.mem_append_right _ List.mem_cons_self
  case last_eq => exact finish_eq a s (src.slice a b)
  case escaped => exact fun h => h.steps a (src.slice a b)
  case lexical_words => exact map_lexical_wordSteps rfl rfl a (src.slice a b)
  case words => exact wordScan_of_depthsFit
  case depth =>
    intro _ pre x post h
    obtain ⟨-, hfirst⟩ := steps_eq_append h
    obtain ⟨-, -, -, hstate, -⟩ := of_steps_eq_cons hfirst
    rw [hstate]
    exact depth_advance_cases _ _ _

/-- The last brace that a machine word can count. -/
theorem tiling_of_steps_wordSize :
    DepthsFit ⟨.code, wordSize - 2, false⟩
        ((ofString "\x7b").steps 0 1 ⟨.code, wordSize - 2, false⟩) ∧
      (ofString "\x7b").wordScan 0 1 ⟨.code, wordSize - 2, false⟩ =
        ⟨.code, wordSize - 1, false⟩ ∧
      ∀ pre x post,
        (ofString "\x7b").steps 0 1 ⟨.code, wordSize - 2, false⟩ = pre ++ x :: post →
        x.state.depth ≤ (stateAfter ⟨.code, wordSize - 2, false⟩ pre).depth + 1 := by
  have hfit : DepthsFit ⟨.code, wordSize - 2, false⟩
      ((ofString "\x7b").steps 0 1 ⟨.code, wordSize - 2, false⟩) := by
    decide +kernel
  have htiling := tiling_of_steps (ofString "\x7b") 0 1 ⟨.code, wordSize - 2, false⟩
  refine ⟨hfit, (htiling.words hfit).2.trans (by decide +kernel), fun pre x post h => ?_⟩
  rcases htiling.depth hfit pre x post h with hdepth | ⟨-, ⟨-, hdepth⟩ | ⟨-, hdepth⟩⟩
  · omega
  · omega
  · omega

/-- The star of a marker does not close the comment that it opens, and half a marker is none. -/
example :
    (ofString "/*/").steps 0 3 .initial =
        [⟨0, '/', ⟨.blockComment, 0, false⟩⟩, ⟨2, '/', ⟨.blockComment, 0, false⟩⟩] ∧
      (ofString "/*/").steps 0 1 .initial = [⟨0, '/', .initial⟩] := by
  decide

end CodeParts.Source
