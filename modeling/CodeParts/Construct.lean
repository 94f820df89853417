/-!
# Constructs and the outcome of extracting one

A construct is a named function, class or definition with its whole body. Not to find
one, or to find one that never closes, is a normal outcome and no error.
-/

namespace CodeParts

namespace Construct

/-- The forms in which a construct is declared. -/
inductive Kind where
  | function
  | asyncFunction
  | generatorFunction
  | functionExpression
  | arrowFunction
  | classDeclaration
  | definition
  | asyncDefinition
  deriving DecidableEq, Repr

/-- A kind in words. -/
def Kind.description : Kind → String
  | .function => "function"
  | .asyncFunction => "async function"
  | .generatorFunction => "generator function"
  | .functionExpression => "function expression"
  | .arrowFunction => "arrow function"
  | .classDeclaration => "class"
  | .definition => "def"
  | .asyncDefinition => "async def"

end Construct

/-- A construct and where it stands. -/
structure Construct where
  kind : Construct.Kind
  /-- The offset of its first character. -/
  start : Nat
  /-- The offset just after its last character. -/
  stop : Nat
  /-- The characters of the span. -/
  body : String
  /-- The number of its first line, from one. -/
  startLine : Nat
  /-- The number of its last line. -/
  endLine : Nat
  deriving DecidableEq, Repr

/-- The outcome of extracting a construct by name. -/
inductive Extraction where
  | found (c : Construct)
  /-- Nothing declares the name. -/
  | notFound
  /-- A declaration of this kind begins, but its block never closes. -/
  | unterminated (kind : Construct.Kind)
  deriving DecidableEq, Repr

namespace Extraction

/-- The construct, if there is one. -/
def construct? : Extraction → Option Construct
  | .found c => some c
  | _ => none

/-- The kind of declaration that was found, whole or not. -/
def kind? : Extraction → Option Construct.Kind
  | .found c => some c.kind
  | .notFound => none
  | .unterminated kind => some kind

/-- Why there is no construct, in words; empty if there is one. -/
def failure : Extraction → String
  | .found _ => ""
  | .notFound => "not found"
  | .unterminated _ => "found start but block not closed"

end Extraction

end CodeParts
