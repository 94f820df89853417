import CodeParts.Digest.Sha256
import CodeParts.Split.Boundary
import CodeParts.Text.Line

/-!
# Parts of a text

A part is a span of whole lines with what a reader needs to place it: its number, its
lines, the brace depth at both ends and a digest. `split` cuts a text into parts that
follow each other without gap or overlap; the empty text has one empty part.
-/

namespace CodeParts

open Lexer Split

/-- A span of whole lines of a text. -/
structure Part where
  /-- Position among the parts, from one. -/
  ordinal : Nat
  /-- How many parts there are. -/
  total : Nat
  /-- The offset of its first character. -/
  start : Nat
  /-- The offset just after its last character. -/
  stop : Nat
  /-- The characters of the span. -/
  text : String
  /-- The number of its first line, from one. -/
  startLine : Nat
  /-- The number of its last line. -/
  endLine : Nat
  /-- Open braces at its start. -/
  depthIn : Nat
  /-- Open braces at its end. -/
  depthOut : Nat
  /-- Its first line without the terminator. -/
  firstLine : String
  /-- Its last line without the terminator. -/
  lastLine : String
  /-- The SHA-256 digest of its text. -/
  digest : String
  deriving DecidableEq, Repr

namespace Part

/-- Number of characters of the span. -/
def charCount (p : Part) : Nat := p.stop - p.start

/-- Number of lines from the first to the last. -/
def lineCount (p : Part) : Nat := p.endLine - p.startLine + 1

/-- The line with this number belongs to the part. -/
def containsLine (p : Part) (line : Nat) : Bool := p.startLine ≤ line && line ≤ p.endLine

/-- No part follows. -/
def isLast (p : Part) : Bool := p.ordinal == p.total

/-- The text ends in a newline. -/
def endsWithNewline (p : Part) : Bool := p.text.toList.getLast? == some '\n'

/-- The part `[start, stop)` of a source. -/
def ofSpan (src : Source) (ordinal total start stop depthIn depthOut : Nat) : Part :=
  let cs := src.slice start stop
  { ordinal, total, start, stop
    text := String.ofList cs
    startLine := src.lineOf start + 1
    endLine := src.lineOf (max start (stop - 1)) + 1
    depthIn, depthOut
    firstLine := String.ofList (CodeParts.firstLine cs)
    lastLine := String.ofList (CodeParts.lastLine cs)
    digest := Sha256.hex (String.ofList cs) }

/-- The part that a boundary ends. -/
def ofBoundary (src : Source) (ordinal total : Nat) (b : Boundary) : Part :=
  ofSpan src ordinal total b.start b.cut b.before.depth b.after.depth

end Part

namespace Split

/-- The parts that given boundaries end, in order; one empty part for an empty text. -/
def assemble (src : Source) (bs : List Boundary) : List Part :=
  if src.isEmpty then [Part.ofSpan src 1 1 0 0 0 0]
  else
    let total := bs.length
    bs.zipIdx.map fun (b, i) => Part.ofBoundary src (i + 1) total b

/-- The parts of a text, unless the policy cannot be used. -/
def split (text : String) (policy : Policy) : Except SettingsError (List Part) :=
  match policy.check with
  | .error e => .error e
  | .ok () =>
      .ok (assemble (Source.ofString text) (boundaries (Source.ofString text) policy))

end Split

end CodeParts
