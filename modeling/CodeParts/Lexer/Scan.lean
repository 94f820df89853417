import CodeParts.Lexer
import CodeParts.Source

/-!
# Scanning a window of a text

`steps` runs the transitions over a list of characters and records one step each;
`finish` keeps only the state at the end. A marker of two characters is one step,
at its first character, and nothing beyond the end of the list is looked at.

For a `Source` the list is the window `[a, b)`, clamped to the text, and offsets
are those of the text (`Source.steps`, `Source.scan`).
-/

namespace CodeParts.Lexer

/-- One transition of a scan: where it began, over which character, and the state
after it. -/
structure Step where
  offset : Nat
  char : Char
  state : State
  deriving DecidableEq, Repr

/-- The character is a newline that leaves a scan in code with no open brace. -/
def State.endsLineAtDepthZero (after : State) (c : Char) : Bool :=
  c == '\n' && after.mode.isCode && after.depth == 0

/-- The step read a newline and left the scan in code with no open brace. -/
def Step.endsLineAtDepthZero (s : Step) : Bool := s.state.endsLineAtDepthZero s.char

/-- The steps over `cs`, which begins at offset `i`, from the state `s`. -/
def steps (i : Nat) (s : State) : (cs : List Char) → List Step
  | [] => []
  | [c] => [⟨i, c, (s.advance c none).state⟩]
  | c :: d :: cs =>
      if (s.advance c (some d)).width = 2 then
        ⟨i, c, (s.advance c (some d)).state⟩ ::
          steps (i + 2) (s.advance c (some d)).state cs
      else
        ⟨i, c, (s.advance c (some d)).state⟩ ::
          steps (i + 1) (s.advance c (some d)).state (d :: cs)

/-- The state after `cs` from the state `s`. -/
def finish (s : State) : (cs : List Char) → State
  | [] => s
  | [c] => (s.advance c none).state
  | c :: d :: cs =>
      if (s.advance c (some d)).width = 2 then finish (s.advance c (some d)).state cs
      else finish (s.advance c (some d)).state (d :: cs)

/-- Just after the last newline of `cs` that leaves the scan in code with no open brace;
`last` if there is none. -/
def lastLineEnd (i : Nat) (s : State) (last : Option Nat) : (cs : List Char) → Option Nat
  | [] => last
  | [c] => if (s.advance c none).state.endsLineAtDepthZero c then some (i + 1) else last
  | c :: d :: cs =>
      let t := s.advance c (some d)
      let last := if t.state.endsLineAtDepthZero c then some (i + 1) else last
      if t.width = 2 then lastLineEnd (i + 2) t.state last cs
      else lastLineEnd (i + 1) t.state last (d :: cs)

/-- Of a list with one more step in front, the new step counts only if no later one does. -/
theorem getLast?_filter_cons (x : Step) (xs : List Step) (last : Option Nat) :
    (((x :: xs).filter Step.endsLineAtDepthZero).getLast?.map (·.offset + 1)).or last =
      ((xs.filter Step.endsLineAtDepthZero).getLast?.map (·.offset + 1)).or
        (if x.endsLineAtDepthZero then some (x.offset + 1) else last) := by
  rw [List.filter_cons]
  split
  · rw [List.getLast?_cons]
    cases (xs.filter Step.endsLineAtDepthZero).getLast? <;> rfl
  · rfl

/-- The last line end is that of the last step at one. -/
theorem lastLineEnd_eq (i : Nat) (s : State) (last : Option Nat) (cs : List Char) :
    lastLineEnd i s last cs =
      (((steps i s cs).filter Step.endsLineAtDepthZero).getLast?.map (·.offset + 1)).or last := by
  fun_induction lastLineEnd i s last cs with
  | case1 => simp [steps]
  | case2 i s last c h => simp [steps, Step.endsLineAtDepthZero, h]
  | case3 i s last c h => simp [steps, Step.endsLineAtDepthZero, h]
  | case4 i s last c d cs t last' h ih =>
      rw [ih, steps, if_pos h, getLast?_filter_cons]
      rfl
  | case5 i s last c d cs t last' h ih =>
      rw [ih, steps, if_neg h, getLast?_filter_cons]
      rfl

/-- A scan ends in the state of its last step. -/
theorem finish_eq (i : Nat) (s : State) (cs : List Char) :
    finish s cs = ((steps i s cs).getLast?.map Step.state).getD s := by
  fun_induction finish s cs generalizing i with
  | case1 s => simp [steps]
  | case2 s c => simp [steps]
  | case3 s c d cs h ih =>
      rw [ih (i + 2)]
      simp only [steps, h, if_true, List.getLast?_cons, Option.map_some, Option.getD_some]
      exact Option.getD_map Step.state ⟨i, c, (s.advance c (some d)).state⟩ _
  | case4 s c d cs h ih =>
      rw [ih (i + 1)]
      simp only [steps, h, if_false, List.getLast?_cons, Option.map_some, Option.getD_some]
      exact Option.getD_map Step.state ⟨i, c, (s.advance c (some d)).state⟩ _

end CodeParts.Lexer

namespace CodeParts.Source

open Lexer

/-- The steps of the scan of `[a, b)`, clamped to the text, from the state `s`. -/
def steps (src : Source) (a b : Nat) (s : State) : List Step :=
  Lexer.steps a s (src.slice a b)

/-- The state at the end of the scan of `[a, b)`, clamped to the text. -/
def scan (src : Source) (a b : Nat) (s : State) : State :=
  Lexer.finish s (src.slice a b)

/-- Just after the last newline of `[a, b)`, clamped to the text, that leaves a scan from
the state `s` in code with no open brace. -/
def lastLineEnd (src : Source) (a b : Nat) (s : State) : Option Nat :=
  Lexer.lastLineEnd a s none (src.slice a b)

theorem lastLineEnd_eq (src : Source) (a b : Nat) (s : State) :
    src.lastLineEnd a b s =
      ((src.steps a b s).filter Step.endsLineAtDepthZero).getLast?.map (·.offset + 1) := by
  simp [lastLineEnd, Lexer.lastLineEnd_eq, steps]

end CodeParts.Source
