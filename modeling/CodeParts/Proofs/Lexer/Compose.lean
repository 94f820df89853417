import CodeParts.Lexer.Scan
import CodeParts.Proofs.Source.Lines

/-!
# Scans compose

A scan looks one character ahead, for the markers of two characters, and never past the
end of what it is given. So it matters where a text is cut into pieces that are scanned
one after the other: a cut inside a marker changes what follows, and no other cut does.

`steps_append_or` says so of two lists: the scan of both is that of the first and then that
of the second, or a marker lies across the cut (`PartsMarker`). A newline belongs to no
marker, so `Source.scan_scan` lets a scan stop and go on at any line end.
-/

namespace CodeParts.Lexer

/-- The character is neither a slash nor a star, so no marker contains it. -/
def NoMarker (c : Char) : Prop := c ≠ '/' ∧ c ≠ '*'

instance (c : Char) : Decidable (NoMarker c) := inferInstanceAs (Decidable (_ ∧ _))

theorem noMarker_newline : NoMarker '\n' := by decide

/-- A marker of the scan of two lists lies across the cut between them. -/
structure PartsMarker (i : Nat) (s : State) (xs ys : List Char) : Prop where
  last : ∃ c, xs.getLast? = some c ∧ ¬ NoMarker c
  head : ∃ d, ys.head? = some d ∧ ¬ NoMarker d
  no_step : ∀ x ∈ steps i s (xs ++ ys), x.offset ≠ i + xs.length

/-! ### One transition -/

/-- A character outside all markers is read alone, whatever follows it. -/
theorem advance_of_noMarker {c : Char} (h : NoMarker c) (s : State) (next : Option Char) :
    s.advance c next = ⟨(s.advance c none).state, 1⟩ := by
  obtain ⟨hslash, hstar⟩ := h
  unfold State.advance
  cases s.mode <;> simp [hslash, hstar]

/-- Before a character outside all markers every character is read alone. -/
theorem advance_of_noMarker_next {d : Char} (h : NoMarker d) (s : State) (c : Char) :
    s.advance c (some d) = ⟨(s.advance c none).state, 1⟩ := by
  obtain ⟨hslash, hstar⟩ := h
  unfold State.advance
  cases s.mode <;> simp [hslash, hstar]

/-- What is read alone is read as it would be at the end of a text. -/
theorem advance_of_width_ne_two {s : State} {c : Char} {next : Option Char}
    (h : (s.advance c next).width ≠ 2) : (s.advance c next).state = (s.advance c none).state := by
  unfold State.advance at h ⊢
  cases hmode : s.mode with
  | code =>
      simp only [hmode] at h
      by_cases hline : c = '/' ∧ next = some '/'
      · exact absurd (by rw [if_pos hline]) h
      · by_cases hblock : c = '/' ∧ next = some '*'
        · exact absurd (by rw [if_neg hline, if_pos hblock]) h
        · simp only [if_neg hline, if_neg hblock]
          simp
  | lineComment => rfl
  | blockComment =>
      simp only [hmode] at h
      by_cases hclose : c = '*' ∧ next = some '/'
      · exact absurd (by rw [if_pos hclose]) h
      · simp only [if_neg hclose]
        simp
  | quoted q => rfl

/-- Markers open and close no braces, so what follows a character has no bearing on the depth. -/
theorem advance_depth (s : State) (c : Char) (next : Option Char) :
    (s.advance c next).state.depth = (s.advance c none).state.depth := by
  unfold State.advance
  cases s.mode with
  | code =>
      by_cases hslash : c = '/'
      · subst hslash
        by_cases hline : next = some '/'
        · simp [hline]
          rfl
        · by_cases hblock : next = some '*'
          · simp [hblock]
            rfl
          · simp [hline, hblock]
      · simp [hslash]
  | lineComment => rfl
  | blockComment =>
      simp only
      split <;> simp
  | quoted q => rfl

/-- Two characters that are read together are both slashes or stars. -/
theorem not_noMarker_of_width_two {s : State} {c d : Char}
    (h : (s.advance c (some d)).width = 2) : ¬ NoMarker c ∧ ¬ NoMarker d := by
  constructor
  · intro hc
    rw [advance_of_noMarker hc] at h
    cases h
  · intro hd
    rw [advance_of_noMarker_next hd] at h
    cases h

/-! ### Steps and states over an append -/

/-- Every step of a scan that begins at offset `i` stands inside what is scanned. -/
theorem offset_of_mem_steps {i : Nat} {s : State} {cs : List Char} {x : Step}
    (h : x ∈ steps i s cs) : i ≤ x.offset ∧ x.offset < i + cs.length := by
  induction i, s, cs using steps.induct with
  | case1 i s => cases h
  | case2 i s c =>
      simp only [steps, List.mem_singleton] at h
      subst h
      simp
  | case3 i s c d cs hwidth ih =>
      simp only [steps, hwidth, if_true, List.mem_cons] at h
      rcases h with rfl | h
      · simp
      · have := ih h
        simp only [List.length_cons]
        omega
  | case4 i s c d cs hwidth ih =>
      simp only [steps, hwidth, if_false, List.mem_cons] at h
      rcases h with rfl | h
      · simp
      · have := ih h
        simp only [List.length_cons] at this ⊢
        omega

/-- A character outside all markers takes one step. -/
theorem steps_cons {c : Char} (h : NoMarker c) (i : Nat) (s : State) (cs : List Char) :
    steps i s (c :: cs) =
      ⟨i, c, (s.advance c none).state⟩ :: steps (i + 1) (s.advance c none).state cs := by
  cases cs with
  | nil => rfl
  | cons d cs =>
      rw [steps, advance_of_noMarker h]
      rfl

/-- What lies across a cut behind the first step lies across it. -/
theorem partsMarker_cons {i w : Nat} {s t : State} {c : Char} {cs xs ys : List Char}
    (h : PartsMarker (i + w) t xs ys) (hlast : cs.getLast? = xs.getLast?)
    (hlength : cs.length = w + xs.length)
    (hsteps : steps i s (cs ++ ys) = ⟨i, c, t⟩ :: steps (i + w) t (xs ++ ys)) :
    PartsMarker i s cs ys where
  last := by
    rw [hlast]
    exact h.last
  head := h.head
  no_step := by
    obtain ⟨e, he, -⟩ := h.last
    have hpos : 0 < xs.length := List.length_pos_of_mem (List.mem_of_getLast? he)
    intro x hx
    rw [hsteps, List.mem_cons] at hx
    rcases hx with rfl | hx
    · simp only
      omega
    · have := h.no_step x hx
      omega

/-- The steps over two lists are those over the first, then those over the second from
the state in which the first ends; or a marker lies across the cut. -/
theorem steps_append_or (i : Nat) (s : State) (xs ys : List Char) :
    steps i s (xs ++ ys) = steps i s xs ++ steps (i + xs.length) (finish s xs) ys ∨
      PartsMarker i s xs ys := by
  induction i, s, xs using steps.induct with
  | case1 i s => exact .inl rfl
  | case2 i s c =>
      cases ys with
      | nil => exact .inl (by simp [steps])
      | cons d ys =>
          by_cases hwidth : (s.advance c (some d)).width = 2
          · obtain ⟨hc, hd⟩ := not_noMarker_of_width_two hwidth
            refine .inr ⟨⟨c, rfl, hc⟩, ⟨d, rfl, hd⟩, ?_⟩
            intro x hx
            simp only [List.singleton_append, steps, hwidth, if_true, List.mem_cons] at hx
            rcases hx with rfl | hx
            · simp
            · have := (offset_of_mem_steps hx).1
              simp only [List.length_singleton]
              omega
          · left
            have hstate := advance_of_width_ne_two hwidth
            simp [steps, finish, hwidth, hstate]
  | case3 i s c d cs hwidth ih =>
      rcases ih with ih | ih
      · left
        simp only [List.cons_append, steps, finish, hwidth, if_true]
        rw [ih]
        simp only [List.length_cons, Nat.add_assoc, Nat.add_comm 2]
      · right
        refine partsMarker_cons (c := c) ih ?_ (by simp [Nat.add_comm 2])
          (by simp only [List.cons_append, steps, hwidth, if_true])
        -- The marker `c d` is whole, and what lies across the cut comes behind it.
        obtain ⟨e, he, -⟩ := ih.last
        simp [List.getLast?_cons, he]
  | case4 i s c d cs hwidth ih =>
      rcases ih with ih | ih
      · left
        simp only [List.cons_append, steps, finish, hwidth, if_false]
        rw [← List.cons_append, ih]
        simp only [List.length_cons, Nat.add_assoc, Nat.add_comm 1]
      · right
        exact partsMarker_cons (c := c) ih List.getLast?_cons_cons (by simp [Nat.add_comm 1])
          (by simp only [List.cons_append, steps, hwidth, if_false])

/-- A scan may stop before a character that belongs to no marker. -/
theorem steps_append_cons {d : Char} (h : NoMarker d) (i : Nat) (s : State)
    (xs ys : List Char) :
    steps i s (xs ++ d :: ys) =
      steps i s xs ++ steps (i + xs.length) (finish s xs) (d :: ys) := by
  rcases steps_append_or i s xs (d :: ys) with hsteps | hparts
  · exact hsteps
  · obtain ⟨e, he, hmarker⟩ := hparts.head
    cases he
    exact absurd h hmarker

/-! ### Moving a scan -/

/-- The step at an offset that is greater by `k`. -/
def Step.shift (k : Nat) (x : Step) : Step := { x with offset := k + x.offset }

@[simp] theorem Step.shift_offset (k : Nat) (x : Step) : (x.shift k).offset = k + x.offset := rfl

@[simp] theorem Step.shift_state (k : Nat) (x : Step) : (x.shift k).state = x.state := rfl

/-- Offsets are all that depends on where a list begins. -/
theorem steps_shift (k i : Nat) (s : State) (cs : List Char) :
    steps (k + i) s cs = (steps i s cs).map (Step.shift k) := by
  induction i, s, cs using steps.induct with
  | case1 i s => rfl
  | case2 i s c => rfl
  | case3 i s c d cs hwidth ih =>
      simp only [steps, hwidth, if_true, List.map_cons, ← ih]
      rfl
  | case4 i s c d cs hwidth ih =>
      simp only [steps, hwidth, if_false, List.map_cons, ← ih]
      rfl

/-- The states of a scan do not depend on where it begins. -/
theorem forall_mem_steps (p : State → Prop) (i : Nat) (s : State) (cs : List Char) :
    (∀ x ∈ steps i s cs, p x.state) ↔ ∀ x ∈ steps 0 s cs, p x.state := by
  rw [← Nat.add_zero i, steps_shift, List.forall_mem_map]
  rfl

theorem lastLineEnd_shift (k i : Nat) (s : State) (cs : List Char) :
    lastLineEnd (k + i) s none cs = (lastLineEnd i s none cs).map (k + ·) := by
  simp only [lastLineEnd_eq, steps_shift, List.filter_map, List.getLast?_map, Option.or_none,
    Option.map_map]
  rfl

end CodeParts.Lexer

namespace CodeParts.Source

open Lexer

variable {src sub : Source} {a b c : Nat}

/-- The steps of a scan are those up to an offset and those from it on; or a marker lies
across the offset. -/
theorem steps_append_steps_or (hab : a ≤ b) (hbc : b ≤ c) (s : State) :
    src.steps a b s ++ src.steps b c (src.scan a b s) = src.steps a c s ∨
      PartsMarker a s (src.slice a b) (src.slice b c) := by
  unfold steps scan
  rw [← slice_append_slice src hab hbc]
  rcases steps_append_or a s (src.slice a b) (src.slice b c) with hsteps | hparts
  · left
    rw [hsteps, length_slice]
    by_cases hb : b ≤ src.size
    · rw [Nat.min_eq_left hb, Nat.add_sub_cancel' hab]
    · -- Nothing is left to scan, so it does not matter where it would begin.
      rw [slice_eq_nil (show min c src.size ≤ b by omega)]
      rfl
  · exact .inr hparts

/-- What lies across a marker lies strictly inside the range. -/
theorem lt_of_partsMarker {s : State} (h : PartsMarker a s (src.slice a b) (src.slice b c)) :
    a < b ∧ b < min c src.size := by
  obtain ⟨_, hc, -⟩ := h.last
  obtain ⟨_, hd, -⟩ := h.head
  have hfirst := List.length_pos_of_mem (List.mem_of_getLast? hc)
  have hsecond := List.length_pos_of_mem (List.mem_of_head? hd)
  rw [length_slice] at hfirst hsecond
  omega

/-- No marker lies behind a character that belongs to none. -/
theorem not_partsMarker_of_charAt {ch : Char} (hc : src.charAt (b - 1) = some ch)
    (h : NoMarker ch) (s : State) : ¬ PartsMarker a s (src.slice a b) (src.slice b c) := by
  intro hparts
  obtain ⟨hab, hbc⟩ := lt_of_partsMarker hparts
  obtain ⟨d, hlast, hmarker⟩ := hparts.last
  rw [getLast?_slice hab (by omega), hc, Option.some.injEq] at hlast
  exact hmarker (hlast ▸ h)

/-- No marker lies across a line break. -/
theorem not_partsMarker_of_lineBreak (h : src.LineBreak b) (s : State) :
    ¬ PartsMarker a s (src.slice a b) (src.slice b c) := by
  intro hparts
  obtain ⟨hab, hbc⟩ := lt_of_partsMarker hparts
  rcases h with hline | rfl
  · have hnl := newlineAt_of_lineStartsAt (Nat.zero_lt_of_lt hab) hline
    exact not_partsMarker_of_charAt (newlineAt_eq_true.1 hnl) noMarker_newline s hparts
  · omega

/-- The steps of a scan through a line break are those before it and those behind it. -/
theorem steps_append_steps (hab : a ≤ b) (hbc : b ≤ c) (h : src.LineBreak b) (s : State) :
    src.steps a b s ++ src.steps b c (src.scan a b s) = src.steps a c s := by
  rcases steps_append_steps_or hab hbc s with hsteps | hparts
  · exact hsteps
  · exact absurd hparts (not_partsMarker_of_lineBreak h s)

/-- A scan whose steps can be cut at an offset ends where it would have ended. -/
theorem scan_of_steps_append {s : State}
    (h : src.steps a b s ++ src.steps b c (src.scan a b s) = src.steps a c s) :
    src.scan b c (src.scan a b s) = src.scan a c s := by
  have hlast (i k : Nat) (t : State) :
      src.scan i k t = ((src.steps i k t).getLast?.map Step.state).getD t :=
    finish_eq i t (src.slice i k)
  rw [hlast a c, ← h, hlast b c, List.getLast?_append]
  cases (src.steps b c (src.scan a b s)).getLast? with
  | none => simp [hlast a b]
  | some x => simp

/-- A scan may stop at any line break and go on from the state it has come to. -/
theorem scan_scan (hab : a ≤ b) (hbc : b ≤ c) (h : src.LineBreak b) (s : State) :
    src.scan b c (src.scan a b s) = src.scan a c s :=
  scan_of_steps_append (steps_append_steps hab hbc h s)

/-! ### Step boundaries -/

/-- The scan of `[a, c)` from the state `s` begins at offset `b`, has come to its end there, or
takes a step there. -/
def StepBoundary (src : Source) (a b c : Nat) (s : State) : Prop :=
  b = a ∨ min c src.size ≤ b ∨ ∃ x ∈ src.steps a c s, x.offset = b

instance (src : Source) (a b c : Nat) (s : State) : Decidable (src.StepBoundary a b c s) :=
  inferInstanceAs (Decidable (_ ∨ _ ∨ _))

theorem not_partsMarker_of_stepBoundary {s : State} (hab : a ≤ b) (hbc : b ≤ c)
    (h : src.StepBoundary a b c s) : ¬ PartsMarker a s (src.slice a b) (src.slice b c) := by
  intro hparts
  obtain ⟨hlt, hend⟩ := lt_of_partsMarker hparts
  rcases h with rfl | hle | ⟨x, hx, hoffset⟩
  · exact Nat.lt_irrefl _ hlt
  · omega
  · refine hparts.no_step x ?_ ?_
    · rw [slice_append_slice src hab hbc]
      exact hx
    · rw [length_slice]
      omega

/-- A scan that has not come to its end takes a step where it begins. -/
theorem exists_mem_steps_of_lt (h : b < min c src.size) (s : State) :
    ∃ x ∈ src.steps b c s, x.offset = b := by
  cases hcs : src.slice b c with
  | nil =>
      have := congrArg List.length hcs
      rw [length_slice, List.length_nil] at this
      omega
  | cons ch cs =>
      rw [steps, hcs]
      cases cs with
      | nil => exact ⟨_, List.mem_cons_self, rfl⟩
      | cons d cs =>
          rw [Lexer.steps]
          split <;> exact ⟨_, List.mem_cons_self, rfl⟩

/-- A scan can be cut in two at its step boundaries and nowhere else. Every offset behind a
character that is neither a slash nor a star is one, so every offset behind a newline is. -/
theorem steps_compose (hab : a ≤ b) (hbc : b ≤ c) (s : State) :
    (src.StepBoundary a b c s ↔
      src.steps a b s ++ src.steps b c (src.scan a b s) = src.steps a c s) ∧
    (src.StepBoundary a b c s → src.scan b c (src.scan a b s) = src.scan a c s) ∧
    (∀ ch, a < b → src.charAt (b - 1) = some ch → ch ≠ '/' → ch ≠ '*' →
      src.StepBoundary a b c s) ∧
    (a < b → src.newlineAt (b - 1) = true → src.StepBoundary a b c s) := by
  have hcut : ¬ PartsMarker a s (src.slice a b) (src.slice b c) →
      src.steps a b s ++ src.steps b c (src.scan a b s) = src.steps a c s :=
    (steps_append_steps_or hab hbc s).resolve_right
  have hboundary : src.steps a b s ++ src.steps b c (src.scan a b s) = src.steps a c s →
      src.StepBoundary a b c s := by
    intro hsteps
    by_cases hend : b < min c src.size
    · -- The second scan begins with a step at the cut.
      obtain ⟨x, hx, hoffset⟩ := exists_mem_steps_of_lt hend (src.scan a b s)
      exact .inr (.inr ⟨x, hsteps ▸ List.mem_append_right _ hx, hoffset⟩)
    · exact .inr (.inl (Nat.le_of_not_lt hend))
  have hmarker (ch : Char) (hc : src.charAt (b - 1) = some ch) (h : NoMarker ch) :
      src.StepBoundary a b c s :=
    hboundary (hcut (not_partsMarker_of_charAt hc h s))
  refine ⟨⟨fun h => hcut (not_partsMarker_of_stepBoundary hab hbc h), hboundary⟩, ?_, ?_, ?_⟩
  · intro h
    exact scan_of_steps_append (hcut (not_partsMarker_of_stepBoundary hab hbc h))
  · intro ch _ hc hslash hstar
    exact hmarker ch hc ⟨hslash, hstar⟩
  · intro _ hnl
    exact hmarker '\n' (newlineAt_eq_true.1 hnl) noMarker_newline

/-- A comment can be cut off behind its closing marker, though that ends in a slash, but not
inside of the marker. -/
theorem steps_compose_comment :
    (0 ≤ 4 ∧ 4 ≤ 5) ∧ (ofString "/**/\x7b").StepBoundary 0 4 5 .initial ∧
      (ofString "/**/\x7b").steps 0 4 .initial ++
          (ofString "/**/\x7b").steps 4 5 ((ofString "/**/\x7b").scan 0 4 .initial) =
        (ofString "/**/\x7b").steps 0 5 .initial ∧
      ¬ (ofString "/**/\x7b").StepBoundary 0 3 5 .initial := by
  have hboundary : (ofString "/**/\x7b").StepBoundary 0 4 5 .initial := by decide
  have hsteps :=
    (steps_compose (show 0 ≤ 4 by decide) (show 4 ≤ 5 by decide) .initial).1.1 hboundary
  exact ⟨by decide, hboundary, hsteps, by decide⟩

namespace Window

theorem scan_add (w : Window sub src a) (hc : c ≤ sub.size) (s : State) :
    src.scan (a + b) (a + c) s = sub.scan b c s := by
  rw [scan, scan, w.slice_add hc]

theorem lastLineEnd_add (w : Window sub src a) (hc : c ≤ sub.size) (s : State) :
    src.lastLineEnd (a + b) (a + c) s = (sub.lastLineEnd b c s).map (a + ·) := by
  rw [lastLineEnd, lastLineEnd, w.slice_add hc, lastLineEnd_shift]

end Window

end CodeParts.Source
