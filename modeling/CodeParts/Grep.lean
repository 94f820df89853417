import CodeParts.Settings.Error
import CodeParts.Source

/-!
# Literal search

All hits of a literal are counted; the first few are shown, each in a window of lines
around it. Hits do not overlap, and an empty literal hits at every character.
-/

namespace CodeParts

/-- The offsets from `i` on and below `n` at which `p` holds, each the least that is not
among the `width` offsets from the one before on. -/
@[specialize] def spacedOffsets (p : Nat → Bool) (width n i : Nat) : List Nat :=
  if i < n then
    if p i then i :: spacedOffsets p width n (i + max 1 width) else spacedOffsets p width n (i + 1)
  else []
termination_by n - i

namespace Source

/-- The offsets of all hits of a literal. -/
def hits (src : Source) (lit : List Char) : List Nat :=
  let p := src.probe lit
  spacedOffsets (p.stands src) lit.length src.size 0

theorem hits_eq (src : Source) (lit : List Char) :
    src.hits lit = spacedOffsets (src.literalAt lit) lit.length src.size 0 := by
  simp [hits]

end Source

namespace Grep

/-- The lines around one hit. -/
structure Window where
  /-- The number of the line with the hit, from one. -/
  hitLine : Nat
  /-- The number of the first line shown. -/
  firstLine : Nat
  /-- The number of the last line shown. -/
  lastLine : Nat
  /-- The lines shown, with their newlines. -/
  text : String
  deriving DecidableEq, Repr

/-- How much of a search is shown. -/
structure Scope where
  /-- Lines shown above and below a hit. -/
  contextLines : Nat
  /-- Hits shown. -/
  maxMatches : Nat
  deriving DecidableEq, Repr

/-- The outcome of a search. -/
structure Result where
  /-- All hits, shown or not. -/
  hitCount : Nat
  /-- The windows of the first hits. -/
  windows : List Window
  deriving DecidableEq, Repr

/-- Some hits are not shown. -/
def Result.isTruncated (r : Result) : Bool := r.windows.length < r.hitCount

/-- The window around the hit at an offset, with `context` lines on either side as far as
the text has them. -/
def windowAt (src : Source) (context : Nat) (offset : Nat) : Window :=
  let line := src.lineOf offset
  let first := line - context
  let last := min (line + context) (max (src.lineCount - 1) line)
  ⟨line + 1, first + 1, last + 1, String.ofList (src.linesText first last)⟩

/-- The hits of a literal in a text. -/
def search (text needle : String) (scope : Scope) : Except SettingsError Result :=
  if scope.maxMatches = 0 then .error .zeroMaxMatches
  else
    let src := Source.ofString text
    let hits := src.hits needle.toList
    .ok ⟨hits.length, (hits.take scope.maxMatches).map (windowAt src scope.contextLines)⟩

end Grep

end CodeParts
