import CodeParts.Split.Part

/-!
# Figures about a split

`Stats.ofParts` sums up a list of parts, and `Stats.summary` writes the figures on one
line.
-/

namespace CodeParts.Split

/-- Figures about the parts of a text. -/
structure Stats where
  parts : Nat
  chars : Nat
  lines : Nat
  largestChars : Nat
  /-- Parts that end outside all braces. -/
  balanced : Nat
  /-- Parts with more characters than the limit. -/
  oversized : Nat
  deriving DecidableEq, Repr

namespace Stats

/-- The figures of parts that were to have at most `maxChars` characters. A part
without characters has no lines. -/
def ofParts (ps : List Part) (maxChars : Nat) : Stats where
  parts := ps.length
  chars := (ps.map Part.charCount).foldr (· + ·) 0
  lines := ((ps.filter fun p => 0 < p.charCount).map Part.lineCount).foldr (· + ·) 0
  largestChars := (ps.map Part.charCount).foldl max 0
  balanced := ps.countP fun p => p.depthOut == 0
  oversized := ps.countP fun p => maxChars < p.charCount

/-- The figures on one line. -/
def summary (s : Stats) : String :=
  s!"Chunks: {s.parts} | Chars: {s.chars} | Lines: {s.lines} | Largest: {s.largestChars} | " ++
    s!"Balanced: {s.balanced}/{s.parts} | Oversized: {s.oversized}"

end Stats

end CodeParts.Split
