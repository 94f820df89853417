import CodeParts.Construct
import CodeParts.Construct.Room
import CodeParts.Pattern

/-!
# How declarations begin

`signatures name` lists the forms in which braces dialects declare `name`, in order of
priority. Each comes with the place from which its opening brace is looked for.

No word, name or bracket of a form begins with a blank, so the blanks before it are always
taken whole. A form that has no room for the name is left out.
-/

namespace CodeParts.Construct

open Pattern

/-- A letter, an underscore or a dollar sign. -/
def isNameStart (c : Char) : Bool := c.isAlpha || c == '_' || c == '$'

/-- A character that may follow in a name. -/
def isNameChar (c : Char) : Bool := isNameStart c || c.isDigit

/-- A name. -/
def namePattern : Pattern := seq (one isNameStart) (many isNameChar)

/-- A space or a tab. -/
def isIndent (c : Char) : Bool := c == ' ' || c == '\t'

/-- The start of a line with its indentation. -/
def indentedLine : Pattern := seq lineStart (all isIndent)

/-- A keyword. -/
def keyword (s : String) : Pattern := literal s.toList

/-- The words that export a declaration. -/
def exportWords : Pattern :=
  seq (optional (chain [keyword "export", gap, keyword "default", gap]))
    (optional (seq (keyword "export") gap))

/-- The words that declare a variable. -/
def variableWord : Pattern := alt (keyword "var") (alt (keyword "let") (keyword "const"))

/-- One form of declaration. -/
structure Signature where
  kind : Kind
  pattern : Pattern
  /-- The last character of a match may be the opening brace of the body; otherwise the
  brace is looked for after the match. -/
  bodyAtLastChar : Bool
  /-- The space that the form takes but for the name. -/
  fixedSpace : Nat

/-- The characters between a name and the opening parenthesis of its parameters. -/
def openParameters : Pattern := seq blanks (keyword "(")

/-- The arrow of a function with a block, with the brace that opens the block. -/
def blockArrow : Pattern := chain [blanks, keyword "=>", blanks, one (· == '\x7b')]

/-- A variable called `name` and its equals sign. -/
def variableNamed (name : List Char) : Pattern :=
  chain [indentedLine, variableWord, gap, literal name, blanks, keyword "=", blanks]

/-- The forms of declaration in order of priority, whether there is room for the name or
not. -/
def allSignatures (name : List Char) : List Signature := [
  ⟨.function,
    chain [indentedLine, exportWords, keyword "function", gap, literal name, openParameters],
    false, 4936⟩,
  ⟨.asyncFunction,
    chain [indentedLine, exportWords, keyword "async", gap, keyword "function", gap,
      literal name, openParameters],
    false, 5816⟩,
  ⟨.generatorFunction,
    chain [indentedLine, exportWords, keyword "function", blanks, keyword "*", blanks,
      literal name, openParameters],
    false, 5688⟩,
  ⟨.generatorFunction,
    chain [indentedLine, exportWords, keyword "async", gap, keyword "function", blanks,
      keyword "*", blanks, literal name, openParameters],
    false, 6568⟩,
  ⟨.functionExpression,
    chain [variableNamed name, optional (seq (keyword "async") gap), keyword "function",
      openParameters],
    false, 5056⟩,
  ⟨.arrowFunction,
    chain [variableNamed name, optional (seq (keyword "async") blanks), keyword "(",
      throughClosing, blockArrow],
    true, 6688⟩,
  ⟨.arrowFunction,
    chain [variableNamed name, optional (seq (keyword "async") gap), namePattern, blockArrow],
    true, 5824⟩,
  ⟨.classDeclaration,
    chain [indentedLine, exportWords, keyword "class", gap, literal name,
      alt (one fun c => !isNameChar c) lineEnd],
    true, 5336⟩]

/-- The forms of declaration in which a name is looked for, in order of priority. -/
def signatures (name : List Char) : List Signature :=
  (allSignatures name).filter fun s => hasRoom s.fixedSpace name

/-- Where the opening brace of the body is looked for after a match. -/
def Signature.searchFrom (s : Signature) (m : Match) : Nat :=
  if s.bodyAtLastChar then m.stop - 1 else m.stop

end CodeParts.Construct
