import CodeParts.Pattern.Start

/-!
# Searching with patterns

`find` gives the leftmost match from an offset on, `allMatches` the matches from left to
right that do not overlap. Only offsets are tried that the beginning of the pattern admits,
which leaves nothing out (`tryAt_start`); so `find_eq` and `findAll_eq` do not speak of it.
-/

namespace CodeParts.Pattern

/-- The preferred match that begins at offset `i`, which is tried only if `s` admits it. -/
def tryAt (src : Source) (p : Pattern) (s : Start) (i : Nat) : Option Match :=
  if s.admits src i then p.matchAt src i else none

/-- The beginning of a pattern admits all its matches. -/
theorem tryAt_start (src : Source) (p : Pattern) (i : Nat) :
    p.tryAt src p.start i = p.matchAt src i := by
  unfold tryAt
  split
  · rfl
  · next hno =>
    rw [matchAt_eq]
    cases hrun : p.run src ⟨i, []⟩ with
    | nil => rfl
    | cons d ds =>
        have hd : d ∈ p.run src ⟨i, []⟩ := hrun ▸ List.mem_cons_self
        exact absurd (admits_start hd) hno

/-- The match at the least offset from `i` on that `s` admits. -/
def findFrom (src : Source) (p : Pattern) (s : Start) (i : Nat) : Option Match :=
  match p.tryAt src s i with
  | some m => some m
  | none => if i < src.size then findFrom src p s (i + 1) else none
termination_by src.size - i

/-- The match at the least offset from `i` on. -/
def find (src : Source) (p : Pattern) (i : Nat) : Option Match := p.findFrom src p.start i

theorem find_eq (src : Source) (p : Pattern) (i : Nat) :
    p.find src i =
      match p.matchAt src i with
      | some m => some m
      | none => if i < src.size then p.find src (i + 1) else none := by
  rw [find, findFrom, tryAt_start]
  rfl

/-- The matches from offset `i` on that `s` admits, each at the least offset after the one
before; after an empty match the search goes on at the next offset. -/
def findAllFrom (src : Source) (p : Pattern) (s : Start) (i : Nat) : List Match :=
  if i ≤ src.size then
    match p.tryAt src s i with
    | some m => m :: findAllFrom src p s (max (i + 1) m.stop)
    | none => findAllFrom src p s (i + 1)
  else []
termination_by src.size + 1 - i

/-- The matches from offset `i` on, each at the least offset after the one before; after
an empty match the search goes on at the next offset. -/
def findAll (src : Source) (p : Pattern) (i : Nat) : List Match := p.findAllFrom src p.start i

theorem findAll_eq (src : Source) (p : Pattern) (i : Nat) :
    p.findAll src i =
      if i ≤ src.size then
        match p.matchAt src i with
        | some m => m :: p.findAll src (max (i + 1) m.stop)
        | none => p.findAll src (i + 1)
      else [] := by
  rw [findAll, findAllFrom, tryAt_start]
  rfl

/-- All matches in a text that do not overlap, from left to right. -/
def allMatches (src : Source) (p : Pattern) : List Match := p.findAll src 0

/-- The texts kept under a label by the matches of a pattern, in order. -/
def captures (src : Source) (p : Pattern) (label : String) : List String :=
  (p.allMatches src).filterMap fun m => m.text? src label

end CodeParts.Pattern
