import CodeParts.Construct.Signature
import CodeParts.Lexer.Scan
import CodeParts.Pattern.Search

/-!
# Constructs delimited by braces

The construct begins where its signature matches and ends with the brace that closes the
first block after it. Braces in comments and literals do not count, because they are
matched on the scan of the text.
-/

namespace CodeParts.Construct

open Lexer

/-- The offset just after the step that brings the depth back to zero, once it has left
zero; `opened` says whether it has. -/
def closingStep (opened : Bool) : List Step → Option Nat
  | [] => none
  | s :: ss =>
      if 0 < s.state.depth then closingStep true ss
      else if opened then some (s.offset + 1)
      else closingStep false ss

/-- The offset just after the brace that closes the first block opened at or after
offset `i`. -/
def matchingBraceEnd (src : Source) (i : Nat) : Option Nat :=
  closingStep false (src.steps i src.size .initial)

/-- The first signature in order of priority that matches anywhere, with its match. -/
def findSignature (src : Source) (name : List Char) : Option (Signature × Pattern.Match) :=
  (signatures name).findSome? fun s => (s.pattern.find src 0).map fun m => (s, m)

/-- The construct `[start, stop)` of a text. -/
def ofSpan (src : Source) (kind : Kind) (start stop : Nat) : Construct :=
  { kind, start, stop
    body := String.ofList (src.slice start stop)
    startLine := src.lineOf start + 1
    endLine := src.lineOf (stop - 1) + 1 }

/-- The construct called `name` in a text whose blocks are delimited by braces. -/
def extractBraced (src : Source) (name : List Char) : Extraction :=
  match findSignature src name with
  | none => .notFound
  | some (s, m) =>
      match matchingBraceEnd src (s.searchFrom m) with
      | some stop => .found (ofSpan src s.kind m.start stop)
      | none => .unterminated s.kind

end CodeParts.Construct
