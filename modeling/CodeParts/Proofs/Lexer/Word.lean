import CodeParts.Proofs.Lexer.Depth

/-!
# Depths in machine words

A scan counts its depth in a natural number. A machine counts it in a word, and one more opening
brace at the greatest depth that a word holds leads back to zero, unless the machine checks its
sums and stops there. `wordSteps` is the scan that counts so.

Whatever the depth, both scans read the same characters in the same modes
(`map_lexical_wordSteps`). They are the same in their depths too exactly as long as no depth
behind a step outgrows a word (`wordSteps_eq_steps_iff`), and that is certain where the depth
before the scan and the opening braces of the text together fit into one (`depthsFit_of_count`).
-/

namespace CodeParts.Lexer

variable {k i : Nat} {s t : State} {x : Step} {c : Char} {cs : List Char}

/-- The state with its depth in a machine word, where numbers begin again at zero behind the
greatest one. -/
def State.inWord (s : State) : State := { s with depth := s.depth % wordSize }

/-- One transition that counts the depth in a machine word. -/
def State.advanceWord (s : State) (c : Char) (next : Option Char) : Transition :=
  ⟨(s.advance c next).state.inWord, (s.advance c next).width⟩

/-- The steps over `cs`, which begins at offset `i`, from the state `s`, with their depths
counted in machine words. -/
def wordSteps (i : Nat) (s : State) : (cs : List Char) → List Step
  | [] => []
  | [c] => [⟨i, c, (s.advanceWord c none).state⟩]
  | c :: d :: cs =>
      if (s.advanceWord c (some d)).width = 2 then
        ⟨i, c, (s.advanceWord c (some d)).state⟩ ::
          wordSteps (i + 2) (s.advanceWord c (some d)).state cs
      else
        ⟨i, c, (s.advanceWord c (some d)).state⟩ ::
          wordSteps (i + 1) (s.advanceWord c (some d)).state (d :: cs)

/-- All that a step tells apart from the depth: its offset and its character, and the mode and
the escape flag behind it. -/
def Step.lexical (x : Step) : Nat × Char × Mode × Bool :=
  (x.offset, x.char, x.state.mode, x.state.escaped)

/-- No depth of the steps `xs` from the state `s` outgrows a machine word. -/
def DepthsFit (s : State) (xs : List Step) : Prop :=
  s.depth < wordSize ∧ ∀ x ∈ xs, x.state.depth < wordSize

instance (s : State) (xs : List Step) : Decidable (DepthsFit s xs) :=
  inferInstanceAs (Decidable (_ ∧ _))

/-! ### One transition -/

theorem State.depth_inWord_lt (s : State) : s.inWord.depth < wordSize :=
  Nat.mod_lt s.depth (by decide)

theorem State.inWord_of_lt (h : s.depth < wordSize) : s.inWord = s := by
  rw [State.inWord, Nat.mod_eq_of_lt h]

/-- A word counts a transition as it is, unless the depth behind it outgrows the word. -/
theorem advanceWord_of_lt {next : Option Char} (h : (s.advance c next).state.depth < wordSize) :
    s.advanceWord c next = s.advance c next := by
  rw [State.advanceWord, State.inWord_of_lt h]

/-- Apart from the depth a transition is the same in words. -/
theorem advanceWord_of_eq (hmode : t.mode = s.mode) (hescaped : t.escaped = s.escaped) (c : Char)
    (next : Option Char) :
    (t.advanceWord c next).state.mode = (s.advance c next).state.mode ∧
      (t.advanceWord c next).state.escaped = (s.advance c next).state.escaped ∧
      (t.advanceWord c next).width = (s.advance c next).width :=
  advance_of_eq hmode hescaped c next

/-- One character adds to the depth what it adds to the opening braces, or less. -/
theorem depth_advance_le (s : State) (c : Char) (next : Option Char) :
    (s.advance c next).state.depth ≤ s.depth + [c].count '\x7b' := by
  rcases depth_advance_cases s c next with hdepth | ⟨-, ⟨rfl, hdepth⟩ | ⟨rfl, hdepth⟩⟩
  · omega
  · exact Nat.le_of_eq hdepth
  · omega

/-! ### Scans in words and in numbers -/

/-- Scans from states that differ in depth alone differ in depth alone, even if one of them counts
in words. -/
theorem map_lexical_wordSteps (hmode : t.mode = s.mode) (hescaped : t.escaped = s.escaped)
    (i : Nat) (cs : List Char) :
    (wordSteps i t cs).map Step.lexical = (steps i s cs).map Step.lexical := by
  induction i, s, cs using steps.induct generalizing t with
  | case1 i s => rfl
  | case2 i s c =>
      obtain ⟨hmode', hescaped', -⟩ := advanceWord_of_eq hmode hescaped c none
      simp [steps, wordSteps, Step.lexical, hmode', hescaped']
  | case3 i s c d cs hwidth ih =>
      obtain ⟨hmode', hescaped', hwidth'⟩ := advanceWord_of_eq hmode hescaped c (some d)
      rw [steps, wordSteps, if_pos hwidth, if_pos (hwidth'.trans hwidth), List.map_cons,
        List.map_cons, ih hmode' hescaped']
      simp [Step.lexical, hmode', hescaped']
  | case4 i s c d cs hwidth ih =>
      obtain ⟨hmode', hescaped', hwidth'⟩ := advanceWord_of_eq hmode hescaped c (some d)
      rw [steps, wordSteps, if_neg hwidth, if_neg (by rwa [hwidth']), List.map_cons,
        List.map_cons, ih hmode' hescaped']
      simp [Step.lexical, hmode', hescaped']

theorem map_lexical_steps (hmode : t.mode = s.mode) (hescaped : t.escaped = s.escaped) (i : Nat)
    (cs : List Char) : (steps i t cs).map Step.lexical = (steps i s cs).map Step.lexical := by
  rw [← map_lexical_wordSteps rfl rfl i cs, map_lexical_wordSteps hmode hescaped i cs]

theorem depth_lt_of_mem_wordSteps (h : x ∈ wordSteps i s cs) : x.state.depth < wordSize := by
  induction i, s, cs using wordSteps.induct with
  | case1 i s => cases h
  | case2 i s c =>
      rw [List.mem_singleton.1 h]
      exact State.depth_inWord_lt _
  | case3 i s c d cs hwidth ih =>
      rw [wordSteps, if_pos hwidth] at h
      rcases List.mem_cons.1 h with rfl | hrest
      · exact State.depth_inWord_lt _
      · exact ih hrest
  | case4 i s c d cs hwidth ih =>
      rw [wordSteps, if_neg hwidth] at h
      rcases List.mem_cons.1 h with rfl | hrest
      · exact State.depth_inWord_lt _
      · exact ih hrest

/-- Words count the depths of a scan right as long as none outgrows them. -/
theorem wordSteps_eq_steps (h : ∀ x ∈ steps i s cs, x.state.depth < wordSize) :
    wordSteps i s cs = steps i s cs := by
  induction i, s, cs using steps.induct with
  | case1 i s => rfl
  | case2 i s c =>
      rw [wordSteps, steps, advanceWord_of_lt (h _ List.mem_cons_self)]
  | case3 i s c d cs hwidth ih =>
      rw [steps, if_pos hwidth] at h ⊢
      obtain ⟨hfirst, hrest⟩ := List.forall_mem_cons.1 h
      rw [wordSteps, advanceWord_of_lt hfirst, if_pos hwidth, ih hrest]
  | case4 i s c d cs hwidth ih =>
      rw [steps, if_neg hwidth] at h ⊢
      obtain ⟨hfirst, hrest⟩ := List.forall_mem_cons.1 h
      rw [wordSteps, advanceWord_of_lt hfirst, if_neg hwidth, ih hrest]

theorem wordSteps_eq_steps_iff :
    wordSteps i s cs = steps i s cs ↔ ∀ x ∈ steps i s cs, x.state.depth < wordSize := by
  constructor
  · intro h x hx
    rw [← h] at hx
    exact depth_lt_of_mem_wordSteps hx
  · exact wordSteps_eq_steps

/-! ### Depths that fit -/

/-- No step of a scan is deeper than the depth before it and all opening braces of the text. -/
theorem depth_le_of_mem_steps (h : x ∈ steps i s cs) :
    x.state.depth ≤ s.depth + cs.count '\x7b' := by
  induction i, s, cs using steps.induct with
  | case1 i s => cases h
  | case2 i s c =>
      rw [List.mem_singleton.1 h]
      exact depth_advance_le s c none
  | case3 i s c d cs hwidth ih =>
      have hfirst := depth_advance_le s c (some d)
      rw [steps, if_pos hwidth] at h
      rw [List.count_cons, List.count_cons]
      rw [List.count_singleton] at hfirst
      rcases List.mem_cons.1 h with rfl | hrest
      · show (s.advance c (some d)).state.depth ≤ _
        omega
      · have := ih hrest
        omega
  | case4 i s c d cs hwidth ih =>
      have hfirst := depth_advance_le s c (some d)
      rw [steps, if_neg hwidth] at h
      rw [List.count_cons]
      rw [List.count_singleton] at hfirst
      rcases List.mem_cons.1 h with rfl | hrest
      · show (s.advance c (some d)).state.depth ≤ _
        omega
      · have := ih hrest
        omega

/-- Where the depth before a scan and the opening braces of the text together fit into a word,
every depth of the scan does. -/
theorem depthsFit_of_count (h : s.depth + cs.count '\x7b' < wordSize) (i : Nat) :
    DepthsFit s (steps i s cs) :=
  ⟨by omega, fun _ hx => Nat.lt_of_le_of_lt (depth_le_of_mem_steps hx) h⟩

/-- What fits for a deeper scan fits for one that begins less deep. -/
theorem Deeper.depthsFit (h : Deeper k s t) (hfit : DepthsFit t (steps i t cs)) :
    DepthsFit s (steps i s cs) := by
  refine ⟨Nat.lt_of_le_of_lt h.depth_le hfit.1, ?_⟩
  obtain ⟨-, hfit⟩ := hfit
  induction i, s, cs using steps.induct generalizing t with
  | case1 i s =>
      intro x hx
      cases hx
  | case2 i s c =>
      intro x hx
      rw [List.mem_singleton.1 hx]
      exact Nat.lt_of_le_of_lt (h.advance c none).depth_le (hfit _ List.mem_cons_self)
  | case3 i s c d cs hwidth ih =>
      have hwidth' := (advance_of_eq h.mode_eq h.escaped_eq c (some d)).2.2.trans hwidth
      have hdeeper := h.advance c (some d)
      rw [steps, if_pos hwidth'] at hfit
      rw [steps, if_pos hwidth]
      obtain ⟨hfirst, hrest⟩ := List.forall_mem_cons.1 hfit
      exact List.forall_mem_cons.2
        ⟨Nat.lt_of_le_of_lt hdeeper.depth_le hfirst, ih hdeeper hrest⟩
  | case4 i s c d cs hwidth ih =>
      have hwidth' := (advance_of_eq h.mode_eq h.escaped_eq c (some d)).2.2
      have hdeeper := h.advance c (some d)
      rw [steps, if_neg (by rwa [hwidth'])] at hfit
      rw [steps, if_neg hwidth]
      obtain ⟨hfirst, hrest⟩ := List.forall_mem_cons.1 hfit
      exact List.forall_mem_cons.2
        ⟨Nat.lt_of_le_of_lt hdeeper.depth_le hfirst, ih hdeeper hrest⟩

end CodeParts.Lexer

namespace CodeParts.Source

open Lexer

variable {src : Source} {a b : Nat} {s : State}

/-- The steps of the scan of `[a, b)`, clamped to the text, from the state `s`, with their depths
counted in machine words. -/
def wordSteps (src : Source) (a b : Nat) (s : State) : List Step :=
  Lexer.wordSteps a s (src.slice a b)

/-- The state at the end of the scan of `[a, b)` that counts depths in machine words. -/
def wordScan (src : Source) (a b : Nat) (s : State) : State :=
  stateAfter s (src.wordSteps a b s)

/-- A machine scans as this library does, as long as no depth outgrows a word. -/
theorem wordScan_of_depthsFit (h : DepthsFit s (src.steps a b s)) :
    src.wordSteps a b s = src.steps a b s ∧ src.wordScan a b s = src.scan a b s := by
  have hsteps : src.wordSteps a b s = src.steps a b s := wordSteps_eq_steps h.2
  exact ⟨hsteps, by rw [wordScan, hsteps, scan_eq_stateAfter]⟩

/-- Behind the greatest depth that a word holds a machine begins again at zero. -/
example :
    ((ofString "\x7b").wordScan 0 1 ⟨.code, wordSize - 1, false⟩).depth = 0 ∧
      ((ofString "\x7b").scan 0 1 ⟨.code, wordSize - 1, false⟩).depth = wordSize := by
  decide +kernel

end CodeParts.Source
