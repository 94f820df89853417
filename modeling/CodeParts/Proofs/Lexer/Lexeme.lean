import CodeParts.Proofs.Lexer.Steps

/-!
# Where comments and literals close

A scan knows one state and one character ahead. This module says what that amounts to for
a comment or a literal as a whole, in terms of the text alone:

* a line comment closes at the first newline behind its marker;
* a block comment closes at the first `*/` that begins behind its marker, so that `/*/` does
  not close itself;
* a literal closes at the first quote of its own kind that stands behind an even number of
  backslashes, counted back to its opening quote at most.

`Source.lexeme_of_steps` states this of every place of every scan at which code is left,
together with what holds if nothing closes the lexeme in the range.

Inside a lexeme that opens at `i` the state at `k` is a function of the text between them
(`Source.inside`). `advance_inside` is the step lemma for it, `steps_inside` the run lemma.
-/

namespace CodeParts.Lexer

/-- The number of characters that lead into a mode. -/
def Mode.openingWidth : Mode → Nat
  | .lineComment | .blockComment => 2
  | .code | .quoted _ => 1

/-- The number of characters that lead out of a mode. -/
def Mode.closingWidth : Mode → Nat
  | .blockComment => 2
  | .code | .lineComment | .quoted _ => 1

theorem Mode.openingWidth_pos (m : Mode) : 0 < m.openingWidth := by
  cases m <;> exact Nat.zero_lt_succ _

/-- The number of backslashes in which a list ends. -/
def backslashRun (cs : List Char) : Nat := (cs.reverse.takeWhile (· == '\\')).length

@[simp] theorem backslashRun_nil : backslashRun [] = 0 := rfl

theorem backslashRun_concat (cs : List Char) (c : Char) :
    backslashRun (cs ++ [c]) = if c = '\\' then backslashRun cs + 1 else 0 := by
  unfold backslashRun
  rw [List.reverse_append, List.reverse_singleton, List.singleton_append, List.takeWhile_cons]
  by_cases hc : c = '\\' <;> simp [hc]

theorem Quote.ofChar?_char (q : Quote) : Quote.ofChar? q.char = some q := by
  cases q <;> rfl

theorem Quote.char_ne (q : Quote) : q.char ≠ '/' ∧ q.char ≠ '\\' := by
  cases q <;> decide

/-- While the escape flag is the parity of the backslashes so far, only a quote behind an
even number of them ends a literal; every other character keeps the flag so. -/
theorem afterQuotedChar_parity {q : Quote} {c : Char} {n : Nat} (h : n % 2 = 0 → c ≠ q.char)
    (depth : Nat) :
    (⟨.quoted q, depth, n % 2 == 1⟩ : State).afterQuotedChar q c =
      ⟨.quoted q, depth, (if c = '\\' then n + 1 else 0) % 2 == 1⟩ := by
  unfold State.afterQuotedChar
  rcases Nat.mod_two_eq_zero_or_one n with heven | hodd
  · by_cases hc : c = '\\'
    · simp [heven, hc, Nat.add_mod]
    · simp [heven, hc, h heven]
  · by_cases hc : c = '\\'
    · simp [hodd, hc, Nat.add_mod]
    · simp [hodd, hc]

end CodeParts.Lexer

namespace CodeParts.Source

open Lexer

/-! ### The law -/

/-- A comment or a literal opens at offset `i` of a range of code that ends at `b`. -/
inductive Opens (src : Source) (b i : Nat) : Mode → Prop
  | lineComment : i + 1 < b → src.charAt i = some '/' → src.charAt (i + 1) = some '/' →
      Opens src b i .lineComment
  | blockComment : i + 1 < b → src.charAt i = some '/' → src.charAt (i + 1) = some '*' →
      Opens src b i .blockComment
  | quoted (q : Quote) : i < b → src.charAt i = some q.char → Opens src b i (.quoted q)

/-- At offset `j` stands what closes the mode that opens at offset `i`, whole and before the
end `b` of the range. -/
def ClosesAt (src : Source) (b i : Nat) (m : Mode) (j : Nat) : Prop :=
  match m with
  | .code => False
  | .lineComment => i + 2 ≤ j ∧ j < b ∧ src.charAt j = some '\n'
  | .blockComment =>
      i + 2 ≤ j ∧ j + 1 < b ∧ src.charAt j = some '*' ∧ src.charAt (j + 1) = some '/'
  | .quoted q =>
      i < j ∧ j < b ∧ src.charAt j = some q.char ∧ backslashRun (src.slice (i + 1) j) % 2 = 0

instance (src : Source) (b i : Nat) (m : Mode) (j : Nat) : Decidable (src.ClosesAt b i m j) :=
  match m with
  | .code => inferInstanceAs (Decidable False)
  | .lineComment => inferInstanceAs (Decidable (_ ∧ _))
  | .blockComment => inferInstanceAs (Decidable (_ ∧ _))
  | .quoted _ => inferInstanceAs (Decidable (_ ∧ _))

/-- The first offset at which the mode closes. -/
structure ClosesFirstAt (src : Source) (b i : Nat) (m : Mode) (j : Nat) : Prop where
  closes : src.ClosesAt b i m j
  first : ∀ k, k < j → ¬ src.ClosesAt b i m k

variable {src : Source} {a b i j k : Nat} {s : State} {m : Mode} {c : Char}

/-! ### States inside a lexeme -/

/-- The state at offset `k` of a lexeme that opens at offset `i` at the given depth. -/
def inside (src : Source) (i : Nat) (m : Mode) (depth k : Nat) : State :=
  ⟨m, depth,
    match m with
    | .quoted _ => backslashRun (src.slice (i + 1) k) % 2 == 1
    | _ => false⟩

theorem Opens.ne_code (h : src.Opens b i m) : m ≠ .code := by
  cases h <;> simp

theorem Opens.add_openingWidth_le (h : src.Opens b i m) :
    i + m.openingWidth ≤ min b src.size := by
  cases h with
  | lineComment hb _ hc =>
      have := lt_size_of_charAt hc
      simp only [Mode.openingWidth]
      omega
  | blockComment hb _ hc =>
      have := lt_size_of_charAt hc
      simp only [Mode.openingWidth]
      omega
  | quoted q hb hc =>
      have := lt_size_of_charAt hc
      simp only [Mode.openingWidth]
      omega

theorem ClosesAt.exists_charAt (h : src.ClosesAt b i m j) : j < b ∧ ∃ c, src.charAt j = some c := by
  cases m with
  | code => exact h.elim
  | lineComment => exact ⟨h.2.1, _, h.2.2⟩
  | blockComment => exact ⟨Nat.lt_of_succ_lt h.2.1, _, h.2.2.1⟩
  | quoted q => exact ⟨h.2.1, _, h.2.2.1⟩

theorem ClosesAt.add_openingWidth_le (h : src.ClosesAt b i m j) : i + m.openingWidth ≤ j := by
  cases m with
  | code => exact h.elim
  | lineComment => exact h.1
  | blockComment => exact h.1
  | quoted q => exact h.1

/-! ### One step -/

/-- The step that leaves code. -/
theorem advance_of_opens (h : src.Opens b i m) (hc : src.charAt i = some c)
    (hmode : s.mode = .code) (hescaped : s.escaped = false) :
    s.advance c (src.peek b i) =
      ⟨src.inside i m s.depth (i + m.openingWidth), m.openingWidth⟩ := by
  obtain ⟨mode, depth, escaped⟩ := s
  simp only at hmode hescaped
  subst hmode hescaped
  cases h with
  | lineComment hb hslash hnext =>
      rw [hslash, Option.some.injEq] at hc
      subst hc
      simp [State.advance, peek, hb, hnext, inside, Mode.openingWidth]
  | blockComment hb hslash hnext =>
      rw [hslash, Option.some.injEq] at hc
      subst hc
      simp [State.advance, peek, hb, hnext, inside, Mode.openingWidth]
  | quoted q hb hquote =>
      rw [hquote, Option.some.injEq] at hc
      subst hc
      simp [State.advance, State.afterCodeChar, Quote.ofChar?_char, q.char_ne.1, inside,
        Mode.openingWidth]

/-- The step that leaves a lexeme. -/
theorem advance_of_closesAt (h : src.ClosesAt b i m j) (hc : src.charAt j = some c)
    (depth : Nat) :
    (src.inside i m depth j).advance c (src.peek b j) =
      ⟨⟨.code, depth, false⟩, m.closingWidth⟩ := by
  cases m with
  | code => exact h.elim
  | lineComment =>
      obtain ⟨-, -, hnl⟩ := h
      rw [hnl, Option.some.injEq] at hc
      subst hc
      simp [State.advance, inside, Mode.closingWidth]
  | blockComment =>
      obtain ⟨-, hb, hstar, hslash⟩ := h
      rw [hstar, Option.some.injEq] at hc
      subst hc
      simp [State.advance, peek, hb, hslash, inside, Mode.closingWidth]
  | quoted q =>
      obtain ⟨-, -, hquote, heven⟩ := h
      rw [hquote, Option.some.injEq] at hc
      subst hc
      simp [State.advance, State.afterQuotedChar, heven, q.char_ne.2, inside, Mode.closingWidth]

/-- A step that does not leave a lexeme goes on to the next character of it. -/
theorem advance_inside (hm : m ≠ .code) (hik : i + m.openingWidth ≤ k) (hkb : k < b)
    (hc : src.charAt k = some c) (h : ¬ src.ClosesAt b i m k) (depth : Nat) :
    (src.inside i m depth k).advance c (src.peek b k) =
      ⟨src.inside i m depth (k + 1), 1⟩ := by
  cases m with
  | code => exact absurd rfl hm
  | lineComment =>
      have hnl : c ≠ '\n' := by
        rintro rfl
        exact h ⟨hik, hkb, hc⟩
      simp [State.advance, inside, hnl]
  | blockComment =>
      have hmarker : ¬ (c = '*' ∧ src.peek b k = some '/') := by
        rintro ⟨rfl, hnext⟩
        obtain ⟨hlt, hslash⟩ := peek_eq_some.1 hnext
        exact h ⟨hik, hlt, hc, hslash⟩
      simp only [State.advance, inside, if_neg hmarker]
  | quoted q =>
      have hrun : src.slice (i + 1) (k + 1) = src.slice (i + 1) k ++ [c] := by
        rw [← src.slice_append_slice (show i + 1 ≤ k from hik) (Nat.le_add_right k 1),
          slice_of_charAt (Nat.lt_succ_self k) hc, slice_self]
      have hquote : backslashRun (src.slice (i + 1) k) % 2 = 0 → c ≠ q.char := by
        rintro heven rfl
        exact h ⟨hik, hkb, hc, heven⟩
      show Transition.mk _ 1 = _
      rw [inside, inside, hrun, backslashRun_concat]
      simp only [afterQuotedChar_parity hquote]

/-! ### The run -/

/-- As long as a lexeme does not close, a scan goes through it character by character. -/
theorem steps_inside (hm : m ≠ .code) (hik : i + m.openingWidth ≤ k) (hkj : k ≤ j)
    (hj : j ≤ min b src.size) (h : ∀ n, k ≤ n → n < j → ¬ src.ClosesAt b i m n) (depth : Nat) :
    ∃ body, src.steps k b (src.inside i m depth k) =
        body ++ src.steps j b (src.inside i m depth j) ∧
      ∀ z ∈ body, z.offset < j ∧ z.state.mode = m ∧ z.state.depth = depth := by
  obtain ⟨n, rfl⟩ := Nat.exists_eq_add_of_le hkj
  induction n generalizing k with
  | zero => exact ⟨[], rfl, by simp⟩
  | succ n ih =>
      obtain ⟨c, hc⟩ : ∃ c, src.charAt k = some c := exists_charAt (by omega)
      have hadvance := advance_inside hm hik (by omega) hc (h k (Nat.le_refl k) (by omega)) depth
      have hsucc : k + (n + 1) = k + 1 + n := by omega
      rw [hsucc] at hj h ⊢
      obtain ⟨body, hbody, hmem⟩ := ih (k := k + 1) (by omega) (Nat.le_add_right _ n) hj
        fun m hkm hmj => h m (by omega) hmj
      refine ⟨⟨k, c, src.inside i m depth (k + 1)⟩ :: body, ?_, ?_⟩
      · rw [steps_of_charAt (by omega) hc, hadvance, hbody, List.cons_append]
      · intro z hz
        rw [List.mem_cons] at hz
        rcases hz with rfl | hz
        · exact ⟨by simp only; omega, rfl, rfl⟩
        · exact hmem z hz

/-- A scan that enters a lexeme has its first step there and goes on inside. -/
theorem of_steps_opens {x : Step} {post : List Step} (h : src.steps i b s = x :: post)
    (hopens : src.Opens b i m) (hmode : s.mode = .code) (hescaped : s.escaped = false) :
    x.offset = i ∧ x.state = src.inside i m s.depth (i + m.openingWidth) ∧
      post = src.steps (i + m.openingWidth) b (src.inside i m s.depth (i + m.openingWidth)) := by
  obtain ⟨-, hc, hoffset, hstate, hpost⟩ := of_steps_eq_cons h
  rw [advance_of_opens hopens hc hmode hescaped] at hstate hpost
  rw [hstate] at hpost
  exact ⟨hoffset, hstate, hpost⟩

/-- A lexeme that closes is left at the first offset where it can be. -/
theorem steps_of_closesFirstAt {x : Step} {post : List Step} (h : src.steps i b s = x :: post)
    (hopens : src.Opens b i m) (hmode : s.mode = .code) (hescaped : s.escaped = false)
    (hcloses : src.ClosesFirstAt b i m j) :
    ∃ body y, x :: post = body ++ y :: src.steps (j + m.closingWidth) b y.state ∧
      (∀ z ∈ body, z.offset < j ∧ z.state.mode = m ∧ z.state.depth = s.depth) ∧
      y.offset = j ∧ y.state = ⟨.code, s.depth, false⟩ := by
  obtain ⟨hoffset, hstate, hpost⟩ := of_steps_opens h hopens hmode hescaped
  have hij := hcloses.closes.add_openingWidth_le
  obtain ⟨hjb, c, hc⟩ := hcloses.closes.exists_charAt
  have hj := lt_size_of_charAt hc
  obtain ⟨body, hbody, hmem⟩ := steps_inside hopens.ne_code (Nat.le_refl _) hij (by omega)
    (fun n _ hnj => hcloses.first n hnj) s.depth
  refine ⟨x :: body, ⟨j, c, ⟨.code, s.depth, false⟩⟩, ?_, ?_, rfl, rfl⟩
  · rw [hpost, hbody, steps_of_charAt hjb hc, advance_of_closesAt hcloses.closes hc,
      List.cons_append]
  · intro z hz
    rw [List.mem_cons] at hz
    rcases hz with rfl | hz
    · have hwidth : 0 < m.openingWidth := m.openingWidth_pos
      rw [hstate]
      exact ⟨by omega, rfl, rfl⟩
    · exact hmem z hz

/-- A lexeme that does not close takes the rest of the range. -/
theorem steps_of_not_closesAt {x : Step} {post : List Step} (h : src.steps i b s = x :: post)
    (hopens : src.Opens b i m) (hmode : s.mode = .code) (hescaped : s.escaped = false)
    (hcloses : ∀ j, ¬ src.ClosesAt b i m j) :
    ∀ z ∈ x :: post, z.state.mode = m ∧ z.state.depth = s.depth := by
  obtain ⟨-, hstate, hpost⟩ := of_steps_opens h hopens hmode hescaped
  obtain ⟨body, hbody, hmem⟩ := steps_inside hopens.ne_code (Nat.le_refl _)
    hopens.add_openingWidth_le (Nat.le_refl _) (fun n _ _ => hcloses n) s.depth
  rw [steps_eq_nil (Nat.le_refl _), List.append_nil, ← hpost] at hbody
  intro z hz
  rw [List.mem_cons] at hz
  rcases hz with rfl | hz
  · rw [hstate]
    exact ⟨rfl, rfl⟩
  · rw [hbody] at hz
    exact (hmem z hz).2

/-- Wherever a scan takes a step in code that opens a comment or a literal, it stays in that
mode, at the same depth, up to the first place that closes it, and goes on in code behind
that place; if nothing closes it in the range, it is in that mode at the end. -/
theorem lexeme_of_steps {pre post : List Step} {x : Step}
    (hsteps : src.steps a b s = pre ++ x :: post) (hmode : (stateAfter s pre).mode = .code)
    (hescaped : (stateAfter s pre).escaped = false) (hopens : src.Opens b x.offset m) :
    (∀ j, src.ClosesFirstAt b x.offset m j →
      ∃ body y, x :: post = body ++ y :: src.steps (j + m.closingWidth) b y.state ∧
        (∀ z ∈ body, z.offset < j ∧ z.state.mode = m ∧
          z.state.depth = (stateAfter s pre).depth) ∧
        y.offset = j ∧ y.state = ⟨.code, (stateAfter s pre).depth, false⟩) ∧
    ((∀ j, ¬ src.ClosesAt b x.offset m j) →
      (∀ z ∈ x :: post, z.state.mode = m ∧ z.state.depth = (stateAfter s pre).depth) ∧
        (src.scan a b s).mode = m ∧ (src.scan a b s).depth = (stateAfter s pre).depth) := by
  obtain ⟨-, hfirst⟩ := steps_eq_append hsteps
  refine ⟨fun j hj => steps_of_closesFirstAt hfirst hopens hmode hescaped hj, fun hnone => ?_⟩
  have hall := steps_of_not_closesAt hfirst hopens hmode hescaped hnone
  have hend : src.scan a b s = stateAfter x.state post := by
    rw [scan_eq_stateAfter, hsteps, stateAfter_append_cons]
  rw [hend]
  -- The last step of the range is one of those inside the lexeme.
  exact ⟨hall, stateAfter_of_forall
    (P := fun t => t.mode = m ∧ t.depth = (stateAfter s pre).depth)
    (hall x List.mem_cons_self) fun z hz => hall z (List.mem_cons_of_mem x hz)⟩

/-- A literal in braces, with an escaped quote in it: it closes at the quote behind that,
and the brace behind it counts again. -/
theorem lexeme_of_steps_escaped :
    ∃ pre x post body y, (ofString "\x7b\"\\\"\"\x7d").steps 0 6 .initial = pre ++ x :: post ∧
      x.offset = 1 ∧ (stateAfter .initial pre).mode = .code ∧
      (stateAfter .initial pre).escaped = false ∧
      (ofString "\x7b\"\\\"\"\x7d").Opens 6 1 (.quoted .double) ∧
      (ofString "\x7b\"\\\"\"\x7d").ClosesFirstAt 6 1 (.quoted .double) 4 ∧
      x :: post = body ++ y :: (ofString "\x7b\"\\\"\"\x7d").steps 5 6 y.state ∧
      y.offset = 4 ∧ y.state = ⟨.code, 1, false⟩ := by
  generalize hsrc : ofString "\x7b\"\\\"\"\x7d" = src
  have hsteps : src.steps 0 6 .initial =
      [⟨0, '{', ⟨.code, 1, false⟩⟩] ++ ⟨1, '"', ⟨.quoted .double, 1, false⟩⟩ ::
        [⟨2, '\\', ⟨.quoted .double, 1, true⟩⟩, ⟨3, '"', ⟨.quoted .double, 1, false⟩⟩,
          ⟨4, '"', ⟨.code, 1, false⟩⟩, ⟨5, '}', ⟨.code, 0, false⟩⟩] := by
    rw [← hsrc]
    decide
  have hopens : src.Opens 6 1 (.quoted .double) := by
    rw [← hsrc]
    exact .quoted .double (by decide) (by decide)
  have hfirst : src.ClosesFirstAt 6 1 (.quoted .double) 4 := by
    rw [← hsrc]
    refine ⟨by decide, fun k hk => ?_⟩
    revert k
    decide
  obtain ⟨body, y, hbody, -, hoffset, hstate⟩ :=
    (lexeme_of_steps hsteps rfl rfl hopens).1 4 hfirst
  exact ⟨_, _, _, body, y, hsteps, rfl, rfl, rfl, hopens, hfirst, hbody, hoffset, hstate⟩

end CodeParts.Source
