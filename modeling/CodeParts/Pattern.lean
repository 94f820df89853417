import CodeParts.Source
import CodeParts.Text.Blank
import CodeParts.Text.WordChar

/-!
# Patterns and their matches

A `Pattern` describes pieces of text. `Pattern.run` lists every way in which a pattern
can match from a given offset, the preferred one first: an alternative prefers its left
side and a repetition as many characters as it can have. The match of a pattern at an
offset is the first of the list, so a preference gives way only where what follows it
would fail.

Lists make the two questions about a pattern separate: what it matches at all is
membership in the list, and which match is taken is its head. A search does not build
them: `Pattern.first` tries one way after the other, and `first_eq` says that it comes to
the first of the list.
-/

namespace CodeParts

/-- A pattern; characters are given by the class they belong to. -/
inductive Pattern where
  /-- Nothing, which is everywhere. -/
  | empty
  /-- One character of a class. -/
  | one (cls : Char → Bool)
  /-- Any number of characters of a class, preferably all there are. -/
  | many (cls : Char → Bool)
  /-- All characters of a class that follow each other, and never fewer. -/
  | all (cls : Char → Bool)
  /-- Exactly these characters. -/
  | literal (cs : List Char)
  /-- All characters through the next closing parenthesis. -/
  | throughClosing
  /-- One pattern after the other. -/
  | seq (p q : Pattern)
  /-- One pattern or the other, preferably the first. -/
  | alt (p q : Pattern)
  /-- A pattern whose span is kept under a label. -/
  | group (label : String) (p : Pattern)
  /-- The start of the text or just after a newline. -/
  | lineStart
  /-- The end of the text or just before a newline. -/
  | lineEnd
  /-- Between a word character and another character or the edge of the text. -/
  | wordEdge

/-- How far a match has come, with the spans kept so far, the latest first. -/
structure Cursor where
  offset : Nat
  groups : List (String × Nat × Nat)
  deriving DecidableEq, Repr

namespace Cursor

/-- The cursor at another offset. -/
def moveTo (c : Cursor) (i : Nat) : Cursor := { c with offset := i }

/-- The cursor with the span from `a` to its offset kept under a label. -/
def record (c : Cursor) (label : String) (a : Nat) : Cursor :=
  { c with groups := (label, a, c.offset) :: c.groups }

end Cursor

namespace Source

/-- A character of the class stands at offset `i`. -/
@[inline] def classAt (src : Source) (cls : Char → Bool) (i : Nat) : Bool :=
  if h : i < src.chars.size then cls src.chars[i] else false

theorem classAt_eq (src : Source) (cls : Char → Bool) (i : Nat) :
    src.classAt cls i = (src.charAt i).any cls := by
  unfold classAt charAt
  split
  · next h => simp [h]
  · next h => simp [Array.getElem?_eq_none (Nat.le_of_not_lt h)]

/-- Where the longest run of characters of the class from offset `i` on ends. -/
def runEnd (src : Source) (cls : Char → Bool) (i : Nat) : Nat :=
  (firstIn (fun j => !src.classAt cls j) i src.size).getD (max i src.size)

/-- A line begins at offset `i`. -/
def lineStartsAt (src : Source) (i : Nat) : Bool := i == 0 || src.newlineAt (i - 1)

/-- A line ends at offset `i`, before its newline. -/
def lineEndsAt (src : Source) (i : Nat) : Bool := i == src.size || src.newlineAt i

/-- A word character stands before offset `i`. -/
def wordBefore (src : Source) (i : Nat) : Bool := i != 0 && src.classAt isWordChar (i - 1)

/-- Offset `i` is a word edge. -/
def wordEdgeAt (src : Source) (i : Nat) : Bool :=
  src.wordBefore i != src.classAt isWordChar i

end Source

namespace Pattern

/-! ### Derived patterns -/

/-- One pattern after the other, for a whole list. -/
def chain : List Pattern → Pattern
  | [] => empty
  | [p] => p
  | p :: ps => seq p (chain ps)

/-- At least one character of a class, and all that follow each other. -/
def several (cls : Char → Bool) : Pattern := seq (one cls) (all cls)

/-- A pattern or nothing, preferably the pattern. -/
def optional (p : Pattern) : Pattern := alt p empty

/-- Any white space. -/
def blanks : Pattern := all isBlank

/-- At least one character of white space. -/
def gap : Pattern := several isBlank

/-! ### Matching -/

/-- Every way in which a pattern matches from a cursor on, the preferred one first. -/
def run (src : Source) : Pattern → Cursor → List Cursor
  | empty, c => [c]
  | one cls, c => if src.classAt cls c.offset then [c.moveTo (c.offset + 1)] else []
  | many cls, c =>
      (List.range' c.offset (src.runEnd cls c.offset + 1 - c.offset)).reverse.map c.moveTo
  | all cls, c => [c.moveTo (src.runEnd cls c.offset)]
  | literal cs, c =>
      if src.literalAt cs c.offset then [c.moveTo (c.offset + cs.length)] else []
  | throughClosing, c => (src.afterClosing c.offset).toList.map c.moveTo
  | seq p q, c => (run src p c).flatMap (run src q)
  | alt p q, c => run src p c ++ run src q c
  | group label p, c => (run src p c).map fun d => d.record label c.offset
  | lineStart, c => if src.lineStartsAt c.offset then [c] else []
  | lineEnd, c => if src.lineEndsAt c.offset then [c] else []
  | wordEdge, c => if src.wordEdgeAt c.offset then [c] else []

variable {α : Type}

/-- The result of `f` at the greatest number of `[a, b)` at which it has one. -/
def lastResult (f : Nat → Option α) (a : Nat) : (b : Nat) → Option α
  | 0 => none
  | b + 1 =>
      if a ≤ b then
        match f b with
        | some x => some x
        | none => lastResult f a b
      else none

/-- The result of `k` for the first way in which a pattern matches from a cursor on and
`k` has one. -/
def first (src : Source) : Pattern → (Cursor → Option α) → Cursor → Option α
  | empty, k, c => k c
  | one cls, k, c => if src.classAt cls c.offset then k (c.moveTo (c.offset + 1)) else none
  | many cls, k, c =>
      lastResult (fun i => k (c.moveTo i)) c.offset (src.runEnd cls c.offset + 1)
  | all cls, k, c => k (c.moveTo (src.runEnd cls c.offset))
  | literal cs, k, c =>
      if src.literalAt cs c.offset then k (c.moveTo (c.offset + cs.length)) else none
  | throughClosing, k, c =>
      match src.afterClosing c.offset with
      | some i => k (c.moveTo i)
      | none => none
  | seq p q, k, c => first src p (fun d => first src q k d) c
  | alt p q, k, c =>
      match first src p k c with
      | some x => some x
      | none => first src q k c
  | group label p, k, c => first src p (fun d => k (d.record label c.offset)) c
  | lineStart, k, c => if src.lineStartsAt c.offset then k c else none
  | lineEnd, k, c => if src.lineEndsAt c.offset then k c else none
  | wordEdge, k, c => if src.wordEdgeAt c.offset then k c else none

theorem lastResult_eq (f : Nat → Option α) (a b : Nat) :
    lastResult f a b = (List.range' a (b - a)).reverse.findSome? f := by
  induction b with
  | zero => simp [lastResult]
  | succ b ih =>
      rw [lastResult]
      split
      · next h =>
        rw [Nat.succ_sub h, List.range'_concat, List.reverse_append, ih]
        simp only [List.reverse_cons, List.reverse_nil, List.nil_append, List.cons_append,
          List.findSome?_cons, Nat.one_mul, Nat.add_sub_cancel' h]
        cases f b <;> rfl
      · next h =>
        rw [show b + 1 - a = 0 by omega]
        rfl

theorem findSome?_flatMap {β γ : Type} (k : γ → Option α) (g : β → List γ) (xs : List β) :
    (xs.flatMap g).findSome? k = xs.findSome? fun x => (g x).findSome? k := by
  induction xs with
  | nil => rfl
  | cons x xs ih =>
      rw [List.flatMap_cons, List.findSome?_append, List.findSome?_cons, ih]
      cases (g x).findSome? k <;> rfl

/-- Trying one way after the other comes to the first that `k` takes. -/
theorem first_eq (src : Source) (p : Pattern) (k : Cursor → Option α) (c : Cursor) :
    p.first src k c = (p.run src c).findSome? k := by
  induction p generalizing k c with
  | empty => simp [first, run]
  | one cls => simp only [first, run]; split <;> simp
  | many cls =>
      simp only [first, run, lastResult_eq, List.findSome?_map]
      rfl
  | all cls => simp [first, run]
  | literal cs => simp only [first, run]; split <;> simp
  | throughClosing =>
      simp only [first, run]
      cases src.afterClosing c.offset <;> simp
  | seq p q ihp ihq =>
      simp only [first, run, ihp, findSome?_flatMap, ihq]
  | alt p q ihp ihq =>
      simp only [first, run, ihp, ihq, List.findSome?_append]
      cases (p.run src c).findSome? k <;> rfl
  | group label p ih =>
      simp only [first, run, ih, List.findSome?_map]
      rfl
  | lineStart => simp only [first, run]; split <;> simp
  | lineEnd => simp only [first, run]; split <;> simp
  | wordEdge => simp only [first, run]; split <;> simp

/-- Where a pattern matches. -/
structure Match where
  start : Nat
  stop : Nat
  groups : List (String × Nat × Nat)
  deriving DecidableEq, Repr

/-- The span kept last under a label. -/
def Match.span? (m : Match) (label : String) : Option (Nat × Nat) :=
  (m.groups.find? (·.1 == label)).map (·.2)

/-- The text kept last under a label. -/
def Match.text? (m : Match) (src : Source) (label : String) : Option String :=
  (m.span? label).map fun (a, b) => String.ofList (src.slice a b)

/-- The preferred match that begins at offset `i`. -/
def matchAt (src : Source) (p : Pattern) (i : Nat) : Option Match :=
  p.first src (fun c => some ⟨i, c.offset, c.groups⟩) ⟨i, []⟩

theorem matchAt_eq (src : Source) (p : Pattern) (i : Nat) :
    p.matchAt src i =
      ((p.run src ⟨i, []⟩).head?).map fun c => ⟨i, c.offset, c.groups⟩ := by
  rw [matchAt, first_eq]
  cases p.run src ⟨i, []⟩ <;> rfl

end Pattern

end CodeParts
