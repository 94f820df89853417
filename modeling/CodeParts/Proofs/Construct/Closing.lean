import CodeParts.Construct.Braced
import CodeParts.Proofs.Lexer.Depth

/-!
# Where a block closes

A block closes with the step that brings the depth back to zero, and all that counts of a
scan are its depths. `closingStep_append_of_zero` passes over the steps before a block,
`closingStep_append_of_pos` over those inside of it, and `of_closingStep_eq_none` says what
the depths are where no block closes. A text in braces closes its block with the last one
if its scan does not leave the block before (`closingStep_block`).

A scan that is cut off may mistake the last character it sees, the first half of a marker,
for something else. The depth is right even there, so a block closes in a window of a text
just where it closes in the text, provided that the window reaches that far
(`matchingBraceEnd_window`).
-/

namespace CodeParts.Construct

open Lexer

variable {src sub : Source} {a e i : Nat} {s : State} {opened : Bool} {xs ys : List Step}

/-! ### Steps before, inside and behind a block -/

theorem closingStep_cons_of_zero {x : Step} (h : x.state.depth = 0) (xs : List Step) :
    closingStep false (x :: xs) = closingStep false xs := by
  rw [closingStep, if_neg (by omega), if_neg Bool.false_ne_true]

theorem closingStep_cons_of_pos {x : Step} (h : 0 < x.state.depth) (opened : Bool)
    (xs : List Step) : closingStep opened (x :: xs) = closingStep true xs :=
  if_pos h

theorem closingStep_append_of_zero (h : ∀ x ∈ xs, x.state.depth = 0) (ys : List Step) :
    closingStep false (xs ++ ys) = closingStep false ys := by
  induction xs with
  | nil => rfl
  | cons x xs ih =>
      rw [List.cons_append, closingStep_cons_of_zero (h x List.mem_cons_self)]
      exact ih fun y hy => h y (List.mem_cons_of_mem x hy)

theorem closingStep_append_of_pos (h : ∀ x ∈ xs, 0 < x.state.depth) (ys : List Step) :
    closingStep true (xs ++ ys) = closingStep true ys := by
  induction xs with
  | nil => rfl
  | cons x xs ih =>
      rw [List.cons_append, closingStep_cons_of_pos (h x List.mem_cons_self)]
      exact ih fun y hy => h y (List.mem_cons_of_mem x hy)

/-- Where no block closes, none has been opened or the last one is still open. -/
theorem of_closingStep_eq_none (h : closingStep opened xs = none) :
    (opened = false ∧ ∀ x ∈ xs, x.state.depth = 0) ∨
      ∀ s : State, (opened = true → 0 < s.depth) → 0 < (stateAfter s xs).depth := by
  induction xs generalizing opened with
  | nil =>
      cases opened with
      | false => exact .inl ⟨rfl, fun x hx => by cases hx⟩
      | true => exact .inr fun s hs => hs rfl
  | cons x xs ih =>
      rw [closingStep] at h
      split at h
      · next hpos =>
          rcases ih h with ⟨hfalse, -⟩ | hopen
          · cases hfalse
          · right
            intro s _
            rw [stateAfter_cons]
            exact hopen x.state fun _ => hpos
      · next hpos =>
          split at h
          · cases h
          · next hopened =>
              rcases ih h with ⟨-, hzero⟩ | hopen
              · refine .inl ⟨by simpa using hopened, ?_⟩
                intro y hy
                rcases List.mem_cons.1 hy with rfl | hy
                · omega
                · exact hzero y hy
              · right
                intro s _
                rw [stateAfter_cons]
                exact hopen x.state fun h => by cases h

theorem exists_step_of_closingStep (h : closingStep opened xs = some e) :
    ∃ x, x ∈ xs ∧ e = x.offset + 1 := by
  induction xs generalizing opened with
  | nil => cases h
  | cons x xs ih =>
      rw [closingStep] at h
      split at h
      · obtain ⟨y, hy, rfl⟩ := ih h
        exact ⟨y, List.mem_cons_of_mem _ hy, rfl⟩
      · split at h
        · cases h
          exact ⟨x, List.mem_cons_self, rfl⟩
        · obtain ⟨y, hy, rfl⟩ := ih h
          exact ⟨y, List.mem_cons_of_mem _ hy, rfl⟩

theorem closingStep_shift (k : Nat) (opened : Bool) (xs : List Step) :
    closingStep opened (xs.map (Step.shift k)) = (closingStep opened xs).map (k + ·) := by
  induction xs generalizing opened with
  | nil => rfl
  | cons x xs ih =>
      rw [List.map_cons, closingStep, closingStep, ih, ih, Step.shift_state, Step.shift_offset]
      split
      · rfl
      · split <;> rfl

/-! ### Scans that are cut off -/

/-- A block closes behind the offset at which the scan begins. -/
theorem lt_of_closingStep_steps {cs : List Char}
    (h : closingStep opened (steps i s cs) = some e) : i < e := by
  obtain ⟨x, hx, rfl⟩ := exists_step_of_closingStep h
  exact Nat.lt_succ_of_le (offset_of_mem_steps hx).1

theorem closingStep_steps_le {cs : List Char}
    (h : closingStep opened (steps i s cs) = some e) : e ≤ i + cs.length := by
  obtain ⟨x, hx, rfl⟩ := exists_step_of_closingStep h
  exact (offset_of_mem_steps hx).2

/-- Where a block closes is settled step by step, by the offset and the depth of each. -/
theorem closingStep_cons_iff {x y : Step} {p : Prop} (hoffset : x.offset = y.offset)
    (hdepth : x.state.depth = y.state.depth) (hp : e = y.offset + 1 → p)
    (h : ∀ opened, closingStep opened xs = some e ↔ closingStep opened ys = some e ∧ p) :
    closingStep opened (x :: xs) = some e ↔ closingStep opened (y :: ys) = some e ∧ p := by
  rw [closingStep, closingStep, hoffset, hdepth]
  split
  · exact h true
  · split
    · rw [Option.some.injEq]
      exact ⟨fun he => ⟨he, hp he.symm⟩, And.left⟩
    · exact h false

/-- No block closes over nothing, and none closes before a scan begins. -/
theorem closingStep_nil_iff {k : Nat} (hk : k ≤ i) (opened : Bool) (s : State)
    (cs : List Char) :
    closingStep opened [] = some e ↔ closingStep opened (steps i s cs) = some e ∧ e ≤ k := by
  constructor
  · intro h
    cases h
  · rintro ⟨h, hle⟩
    have := lt_of_closingStep_steps h
    omega

/-- Over a piece of a text a block closes where it closes over the whole text. -/
theorem closingStep_steps_append (opened : Bool) (i : Nat) (s : State) (cs ds : List Char) :
    closingStep opened (steps i s cs) = some e ↔
      closingStep opened (steps i s (cs ++ ds)) = some e ∧ e ≤ i + cs.length := by
  induction i, s, cs using steps.induct generalizing opened with
  | case1 i s => exact closingStep_nil_iff (Nat.le_refl i) opened s ds
  | case2 i s c =>
      cases ds with
      | nil => exact ⟨fun h => ⟨h, closingStep_steps_le h⟩, And.left⟩
      | cons d ds =>
          -- The piece ends between the two characters, which may be a marker.
          have hdepth := (advance_depth s c (some d)).symm
          rw [List.singleton_append, steps, steps, List.length_singleton]
          split
          · exact closingStep_cons_iff rfl hdepth Nat.le_of_eq fun opened =>
              closingStep_nil_iff (Nat.le_succ _) opened _ ds
          · exact closingStep_cons_iff rfl hdepth Nat.le_of_eq fun opened =>
              closingStep_nil_iff (Nat.le_refl _) opened _ (d :: ds)
  | case3 i s c d cs hwidth ih =>
      have hlength : i + (c :: d :: cs).length = i + 2 + cs.length := by
        simp only [List.length_cons]
        omega
      rw [hlength]
      simp only [List.cons_append, steps, hwidth, if_true]
      refine closingStep_cons_iff rfl rfl (fun he => ?_) ih
      simp only at he
      omega
  | case4 i s c d cs hwidth ih =>
      have hlength : i + (c :: d :: cs).length = i + 1 + (d :: cs).length := by
        simp only [List.length_cons]
        omega
      rw [hlength]
      simp only [List.cons_append, steps, hwidth, if_false]
      refine closingStep_cons_iff rfl rfl (fun he => ?_) ih
      simp only at he
      omega

/-! ### Blocks -/

/-- The state behind the opening brace of a block. -/
def insideBlock : State := { depth := 1 }

/-- What can stand between the braces of a block: a scan that begins inside of the block ends
inside of it, in code, and does not leave it in between. -/
structure BlockBody (cs : List Char) : Prop where
  mode_eq : (finish insideBlock cs).mode = .code
  depth_eq : (finish insideBlock cs).depth = 1
  depth_pos : ∀ x ∈ steps 0 insideBlock cs, 0 < x.state.depth

instance (cs : List Char) : Decidable (BlockBody cs) :=
  decidable_of_iff ((finish insideBlock cs).mode = .code ∧ (finish insideBlock cs).depth = 1 ∧
      ∀ x ∈ steps 0 insideBlock cs, 0 < x.state.depth)
    ⟨fun ⟨hmode, hdepth, hpos⟩ => ⟨hmode, hdepth, hpos⟩,
      fun h => ⟨h.mode_eq, h.depth_eq, h.depth_pos⟩⟩

/-- A closing brace at depth one brings the depth back to zero. -/
theorem advance_closingBrace {s : State} (hmode : s.mode = .code) (hdepth : s.depth = 1) :
    (s.advance '\x7d' none).state.depth = 0 := by
  rw [State.advance, hmode]
  simp only [reduceCtorEq, and_false, if_false]
  show s.depth - 1 = 0
  omega

/-- A block closes with the brace behind its body. -/
theorem closingStep_block {cs : List Char} (h : BlockBody cs) (i : Nat) (ds : List Char) :
    closingStep false (steps i .initial ('\x7b' :: (cs ++ '\x7d' :: ds))) =
      some (i + 1 + cs.length + 1) := by
  have hopen : (State.initial.advance '\x7b' none).state = insideBlock := rfl
  have hpos := (forall_mem_steps (0 < ·.depth) (i + 1) insideBlock cs).2 h.depth_pos
  have hclose := advance_closingBrace h.mode_eq h.depth_eq
  rw [steps_cons (by decide), hopen,
    closingStep_cons_of_pos (Nat.lt_succ_self 0), steps_append_cons (by decide),
    closingStep_append_of_pos hpos, steps_cons (by decide), closingStep,
    if_neg (by simp only [hclose]; decide), if_pos rfl]

/-- Only a closing brace takes the depth down. -/
theorem depth_le_of_advance (s : State) {c : Char} (next : Option Char) (hc : c ≠ '\x7d') :
    s.depth ≤ (s.advance c next).state.depth := by
  rw [depth_advance]
  split
  · next hbrace =>
      have hopen := (isBrace_iff.1 (Bool.and_eq_true_iff.1 hbrace).2).resolve_right hc
      rw [depthBehind, if_pos hopen]
      exact Nat.le_succ _
  · exact Nat.le_refl _

/-- A block closes with a closing brace, if the scan is inside of a block wherever it says so. -/
theorem char_of_closingStep {b : Nat} (hopened : opened = true → 0 < s.depth)
    (h : closingStep opened (src.steps a b s) = some e) :
    ∃ x ∈ src.steps a b s, x.offset + 1 = e ∧ x.char = '\x7d' := by
  generalize hsteps : src.steps a b s = xs at h
  induction xs generalizing a s opened with
  | nil => cases h
  | cons x xs ih =>
      obtain ⟨-, -, -, hstate, hrest⟩ := Source.of_steps_eq_cons hsteps
      have hlater {opened : Bool} (hopened : opened = true → 0 < x.state.depth)
          (h : closingStep opened xs = some e) :
          ∃ y ∈ x :: xs, y.offset + 1 = e ∧ y.char = '\x7d' := by
        obtain ⟨y, hy, hchar⟩ := ih hopened hrest.symm h
        exact ⟨y, List.mem_cons_of_mem x hy, hchar⟩
      rw [closingStep] at h
      split at h
      · next hpos => exact hlater (fun _ => hpos) h
      · next hzero =>
          split at h
          · next hin =>
              rw [Option.some.injEq] at h
              refine ⟨x, List.mem_cons_self, h, Classical.byContradiction fun hchar => hzero ?_⟩
              rw [hstate]
              exact Nat.lt_of_lt_of_le (hopened hin) (depth_le_of_advance s _ hchar)
          · next hout => exact hlater (fun h => absurd h Bool.false_ne_true) h

/-! ### Braces of a text -/

/-- Braces are matched on the scan of what is left of the text. -/
theorem matchingBraceEnd_eq (src : Source) (i : Nat) :
    matchingBraceEnd src i = closingStep false (steps i .initial (src.toList.drop i)) := by
  rw [matchingBraceEnd, Source.steps, Source.slice_size]

theorem lt_of_matchingBraceEnd (h : matchingBraceEnd src i = some e) : i < e :=
  lt_of_closingStep_steps h

theorem matchingBraceEnd_le (h : matchingBraceEnd src i = some e) : e ≤ src.size := by
  have hlt := lt_of_matchingBraceEnd h
  have hle := closingStep_steps_le h
  rw [Source.length_slice] at hle
  omega

/-- What closes a block is a closing brace. -/
theorem charAt_of_matchingBraceEnd (h : matchingBraceEnd src i = some e) :
    src.charAt (e - 1) = some '\x7d' := by
  obtain ⟨x, hx, rfl, hchar⟩ := char_of_closingStep (fun h => absurd h Bool.false_ne_true) h
  rw [Nat.add_sub_cancel, ← hchar]
  exact (Source.charAt_of_mem_steps hx).2.2

/-- In a window a block closes where it closes in the text, if it does so inside of the window. -/
theorem matchingBraceEnd_window (w : Source.Window sub src a) :
    matchingBraceEnd sub i = some e ↔
      matchingBraceEnd src (a + i) = some (a + e) ∧ e ≤ sub.size := by
  have hsize := w.add_size_le
  rcases Nat.lt_or_ge sub.size i with hlt | hle
  · -- The search begins behind the window.
    rw [matchingBraceEnd, Source.steps, Source.slice_eq_nil (by omega), steps]
    constructor
    · intro h
      cases h
    · rintro ⟨h, he⟩
      have := lt_of_matchingBraceEnd h
      omega
  · have hshift : matchingBraceEnd sub i = some e ↔
        closingStep false (steps (a + i) .initial (sub.slice i sub.size)) = some (a + e) := by
      rw [steps_shift, closingStep_shift, Option.map_eq_some_iff]
      constructor
      · intro h
        exact ⟨e, h, rfl⟩
      · rintro ⟨e', h, heq⟩
        rwa [Nat.add_left_cancel heq] at h
    have hslice : sub.slice i sub.size ++ src.slice (a + sub.size) src.size =
        src.slice (a + i) src.size := by
      rw [← w.slice_add (Nat.le_refl _), Source.slice_append_slice src (by omega) hsize]
    have hlength : a + e ≤ a + i + (sub.slice i sub.size).length ↔ e ≤ sub.size := by
      rw [Source.length_slice, Nat.min_self]
      omega
    rw [hshift, closingStep_steps_append _ _ _ _ (src.slice (a + sub.size) src.size), hslice,
      hlength]
    rfl

end CodeParts.Construct
