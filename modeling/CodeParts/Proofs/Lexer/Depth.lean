import CodeParts.Proofs.Lexer.Steps

/-!
# What the depth of a scan depends on

The depth is all that a scan knows of the braces behind it, and it does not know them all: a
closing brace that closes nothing leaves it at zero. This module says what it depends on.

* Only a brace that is read in code changes the depth, by one (`depth_advance`). `braceSteps`
  keeps the steps of a scan that do so.
* Nothing but the depth depends on the depth. Scans of one text from states that differ in
  nothing else stay in step, and their depths come no further apart (`Deeper.finish`).

`steps_induction` is the induction that statements about the steps of any scan go by. That
the escape flag is set inside of literals alone (`EscapedInQuotes.finish`) belongs here too:
in code a state is its depth.
-/

namespace CodeParts.Lexer

variable {k : Nat} {s t : State}

/-! ### Braces of code -/

/-- The character opens or closes a brace. -/
def isBrace (c : Char) : Bool := c == '\x7b' || c == '\x7d'

/-- The depth behind a brace of code. -/
def depthBehind (brace : Char) (depth : Nat) : Nat :=
  if brace = '\x7b' then depth + 1 else depth - 1

theorem isBrace_iff {c : Char} : isBrace c = true ↔ c = '\x7b' ∨ c = '\x7d' := by
  simp [isBrace]

theorem not_isBrace_of_ofChar? {c : Char} {q : Quote} (h : Quote.ofChar? c = some q) :
    isBrace c = false := by
  rw [← Bool.not_eq_true, isBrace_iff]
  intro hbrace
  rcases hbrace with rfl | rfl <;> cases h

theorem afterQuotedChar_depth (s : State) (q : Quote) (c : Char) :
    (s.afterQuotedChar q c).depth = s.depth := by
  unfold State.afterQuotedChar
  repeat' split
  all_goals rfl

/-- A brace of code is all that changes the depth. -/
theorem depth_advance (s : State) (c : Char) (next : Option Char) :
    (s.advance c next).state.depth =
      if s.mode.isCode && isBrace c then depthBehind c s.depth else s.depth := by
  rw [advance_depth, State.advance]
  cases s.mode with
  | code =>
      simp only [reduceCtorEq, and_false, if_false, Mode.isCode, Bool.true_and, State.afterCodeChar]
      cases hquote : Quote.ofChar? c with
      | some q => simp [not_isBrace_of_ofChar? hquote]
      | none =>
          by_cases hopen : c = '\x7b'
          · simp [hopen, isBrace, depthBehind]
          · by_cases hclose : c = '\x7d'
            · simp [hclose, isBrace, depthBehind]
            · simp [hopen, hclose, isBrace]
  | lineComment =>
      simp only [Mode.isCode, Bool.false_and, Bool.false_eq_true, if_false]
      split <;> rfl
  | blockComment => simp [Mode.isCode]
  | quoted q => simp [Mode.isCode, afterQuotedChar_depth]

/-- A transition leaves the depth as it was, or it reads a brace of code. -/
theorem depth_advance_cases (s : State) (c : Char) (next : Option Char) :
    (s.advance c next).state.depth = s.depth ∨
      s.mode = .code ∧
        (c = '\x7b' ∧ (s.advance c next).state.depth = s.depth + 1 ∨
          c = '\x7d' ∧ (s.advance c next).state.depth = s.depth - 1) := by
  rw [depth_advance]
  split
  · next hbrace =>
    obtain ⟨hcode, hbrace⟩ := Bool.and_eq_true_iff.1 hbrace
    refine .inr ⟨Mode.isCode_iff.1 hcode, ?_⟩
    rcases isBrace_iff.1 hbrace with rfl | rfl
    · exact .inl ⟨rfl, rfl⟩
    · exact .inr ⟨rfl, rfl⟩
  · exact .inl rfl

/-- The steps that read a brace in code, of steps that begin in the state `s`. -/
def braceSteps (s : State) : (xs : List Step) → List Step
  | [] => []
  | x :: xs =>
      if s.mode.isCode && isBrace x.char then x :: braceSteps x.state xs else braceSteps x.state xs

/-- What a step adds to the braces of a scan: nothing, and it leaves the depth as it was; or
itself, as an opening or a closing brace. -/
theorem braceSteps_cases (s : State) (i : Nat) (c : Char) (next : Option Char) (xs : List Step) :
    braceSteps s (⟨i, c, (s.advance c next).state⟩ :: xs) =
        braceSteps (s.advance c next).state xs ∧ (s.advance c next).state.depth = s.depth ∨
      braceSteps s (⟨i, c, (s.advance c next).state⟩ :: xs) =
          ⟨i, c, (s.advance c next).state⟩ :: braceSteps (s.advance c next).state xs ∧
        (c = '\x7b' ∧ (s.advance c next).state.depth = s.depth + 1 ∨
          c = '\x7d' ∧ (s.advance c next).state.depth = s.depth - 1) := by
  rw [depth_advance, braceSteps]
  by_cases hbrace : (s.mode.isCode && isBrace c) = true
  · rw [if_pos hbrace, if_pos hbrace]
    refine .inr ⟨rfl, ?_⟩
    rcases isBrace_iff.1 (Bool.and_eq_true_iff.1 hbrace).2 with rfl | rfl
    · exact .inl ⟨rfl, rfl⟩
    · exact .inr ⟨rfl, rfl⟩
  · rw [if_neg hbrace, if_neg hbrace]
    exact .inl ⟨rfl, rfl⟩

/-- What holds of no steps, and of a transition and the steps of a scan behind it if it holds of
those, holds of the steps of every scan. -/
theorem steps_induction {P : State → List Step → Prop} (hnil : ∀ s, P s [])
    (hcons : ∀ s i c next j cs, P (s.advance c next).state (steps j (s.advance c next).state cs) →
      P s (⟨i, c, (s.advance c next).state⟩ :: steps j (s.advance c next).state cs))
    (i : Nat) (s : State) (cs : List Char) : P s (steps i s cs) := by
  induction i, s, cs using steps.induct with
  | case1 i s => exact hnil s
  | case2 i s c => exact hcons s i c none (i + 1) [] (hnil _)
  | case3 i s c d cs hwidth ih =>
      simp only [steps, hwidth, if_true]
      exact hcons s i c (some d) (i + 2) cs ih
  | case4 i s c d cs hwidth ih =>
      simp only [steps, hwidth, if_false]
      exact hcons s i c (some d) (i + 1) (d :: cs) ih

/-! ### States that differ in depth -/

/-- Two states that differ in depth alone, the second being deeper by at most `k`. -/
structure Deeper (k : Nat) (s t : State) : Prop where
  mode_eq : t.mode = s.mode
  escaped_eq : t.escaped = s.escaped
  depth_le : s.depth ≤ t.depth
  depth_le_add : t.depth ≤ s.depth + k

/-- Apart from the depth a transition does not depend on the depth. -/
theorem advance_of_eq (hmode : t.mode = s.mode) (hescaped : t.escaped = s.escaped) (c : Char)
    (next : Option Char) :
    (t.advance c next).state.mode = (s.advance c next).state.mode ∧
      (t.advance c next).state.escaped = (s.advance c next).state.escaped ∧
      (t.advance c next).width = (s.advance c next).width := by
  obtain ⟨m, d, e⟩ := s
  obtain ⟨m', d', e'⟩ := t
  simp only at hmode hescaped
  subst hmode hescaped
  unfold State.advance
  cases m' with
  | code =>
      simp only [State.afterCodeChar]
      repeat' split
      all_goals simp
  | lineComment =>
      simp only
      split <;> simp
  | blockComment =>
      simp only
      split <;> simp
  | quoted q =>
      simp only [State.afterQuotedChar]
      repeat' split
      all_goals simp

/-- A brace moves both depths alike, but for a closing brace that finds one of them at zero. -/
theorem Deeper.advance (h : Deeper k s t) (c : Char) (next : Option Char) :
    Deeper k (s.advance c next).state (t.advance c next).state := by
  obtain ⟨hmode, hescaped, -⟩ := advance_of_eq h.mode_eq h.escaped_eq c next
  have hle := h.depth_le
  have hadd := h.depth_le_add
  refine ⟨hmode, hescaped, ?_, ?_⟩
  all_goals
    rw [depth_advance, depth_advance, h.mode_eq]
    unfold depthBehind
    repeat' split
    all_goals omega

/-- Scans from states that differ in depth alone end in such states. -/
theorem Deeper.finish (h : Deeper k s t) (cs : List Char) :
    Deeper k (Lexer.finish s cs) (Lexer.finish t cs) := by
  induction s, cs using finish.induct generalizing t with
  | case1 s => exact h
  | case2 s c => exact h.advance c none
  | case3 s c d cs hwidth ih =>
      have hwidth' := (advance_of_eq h.mode_eq h.escaped_eq c (some d)).2.2.trans hwidth
      rw [Lexer.finish, Lexer.finish, if_pos hwidth, if_pos hwidth']
      exact ih (h.advance c (some d))
  | case4 s c d cs hwidth ih =>
      have hwidth' := (advance_of_eq h.mode_eq h.escaped_eq c (some d)).2.2
      rw [Lexer.finish, Lexer.finish, if_neg hwidth, if_neg (by rw [hwidth']; exact hwidth)]
      exact ih (h.advance c (some d))

/-- From the initial state any state of code differs by its depth alone. -/
theorem deeper_initial (hmode : s.mode = .code) (hescaped : s.escaped = false) :
    Deeper s.depth .initial s :=
  ⟨hmode, hescaped, Nat.zero_le _, Nat.le_add_left _ _⟩

/-! ### The escape flag -/

/-- The next character is escaped only inside of a literal. -/
def State.EscapedInQuotes (s : State) : Prop := s.escaped = true → ∃ q, s.mode = .quoted q

theorem escapedInQuotes_initial : State.initial.EscapedInQuotes := by
  intro h
  cases h

/-- Outside of literals the flag does not change. -/
theorem escaped_advance (h : ∀ q, s.mode ≠ .quoted q) (c : Char) (next : Option Char) :
    (s.advance c next).state.escaped = s.escaped := by
  unfold State.advance
  cases hmode : s.mode with
  | code =>
      simp only [State.afterCodeChar]
      repeat' split
      all_goals rfl
  | lineComment =>
      simp only
      split <;> rfl
  | blockComment =>
      simp only
      split <;> rfl
  | quoted q => exact absurd hmode (h q)

/-- A character that leaves a literal is not escaped, and none behind it is. -/
theorem State.EscapedInQuotes.advance (h : s.EscapedInQuotes) (c : Char) (next : Option Char) :
    (s.advance c next).state.EscapedInQuotes := by
  intro hescaped
  by_cases hquoted : ∃ q, s.mode = .quoted q
  · obtain ⟨q, hq⟩ := hquoted
    simp only [State.advance, hq, State.afterQuotedChar] at hescaped ⊢
    by_cases hflag : s.escaped = true
    · rw [if_pos hflag] at hescaped
      cases hescaped
    · rw [if_neg hflag] at hescaped ⊢
      by_cases hslash : c = '\\'
      · rw [if_pos hslash]
        exact ⟨q, rfl⟩
      · rw [if_neg hslash] at hescaped
        split at hescaped <;> exact absurd hescaped hflag
  · rw [escaped_advance fun q hq => hquoted ⟨q, hq⟩] at hescaped
    exact absurd (h hescaped) hquoted

theorem State.EscapedInQuotes.steps (h : s.EscapedInQuotes) (i : Nat) (cs : List Char) :
    ∀ x ∈ Lexer.steps i s cs, x.state.EscapedInQuotes := by
  refine steps_induction (P := fun s xs => s.EscapedInQuotes → ∀ x ∈ xs, x.state.EscapedInQuotes)
    ?nil ?step i s cs h
  case nil =>
    intro s _ x hx
    cases hx
  case step =>
    intro s i c next j cs ih h x hx
    rcases List.mem_cons.1 hx with rfl | hx
    · exact h.advance c next
    · exact ih (h.advance c next) x hx

theorem State.EscapedInQuotes.finish (h : s.EscapedInQuotes) (cs : List Char) :
    (Lexer.finish s cs).EscapedInQuotes := by
  rw [finish_eq 0]
  exact stateAfter_of_forall h (h.steps 0 cs)

end CodeParts.Lexer
