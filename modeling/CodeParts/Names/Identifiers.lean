import CodeParts.Construct.Signature
import CodeParts.Names.Tally
import CodeParts.Pattern.Search

/-!
# Identifiers and declared names of a text

Names are found by patterns alone, in comments and literals too. An identifier is a name
with a word edge on either side; reserved words are not counted.
-/

namespace CodeParts.Names

open Pattern Construct

/-- Words that are no names of their own. -/
def reservedWords : List String := [
  "await", "break", "case", "catch", "class", "const", "continue", "debugger", "default",
  "delete", "do", "else", "enum", "export", "extends", "false", "finally", "for", "function",
  "if", "import", "in", "instanceof", "let", "new", "null", "return", "super", "switch", "this",
  "throw", "true", "try", "typeof", "var", "void", "while", "with", "yield", "implements",
  "interface", "package", "private", "protected", "public", "static"]

/-! ### Identifiers -/

/-- A name between two word edges. -/
def identifierPattern : Pattern := chain [wordEdge, group "name" namePattern, wordEdge]

/-- The identifiers of a text that are not reserved, in order and with repetitions. -/
def identifiers (src : Source) : List String :=
  (identifierPattern.captures src "name").filter (· ∉ reservedWords)

/-- The different identifiers of a text, each with its count. -/
def identifierCounts (src : Source) : List (String × Nat) := tally (identifiers src)

/-- The `n` most frequent identifiers. -/
def topIdentifiers (src : Source) (n : Nat) : List (String × Nat) := rank (identifierCounts src) n

/-! ### Declared names -/

/-- A declaration: words, the declared name and what follows it. -/
def declaration (words after : Pattern) : Pattern :=
  chain [indentedLine, words, group "name" namePattern, after]

/-- The forms of declaration in the order in which their names are listed. -/
def declarations : List Pattern := [
  declaration (seq (keyword "function") gap) openParameters,
  declaration (chain [keyword "async", gap, keyword "function", gap]) openParameters,
  declaration (chain [keyword "function", blanks, keyword "*", blanks]) openParameters,
  declaration (chain [keyword "async", gap, keyword "function", blanks, keyword "*", blanks])
    openParameters,
  declaration (seq (keyword "class") gap) wordEdge,
  declaration (seq variableWord gap) (seq blanks (keyword "="))]

/-- The first `max` names that a text declares, form by form, each once. -/
def declaredNames (src : Source) (max : Nat) : List String :=
  ((declarations.flatMap fun p => p.captures src "name").eraseDups).take max

/-! ### Hints -/

/-- What a reader who skims a text would look for. -/
structure Hints where
  /-- Names that it declares. -/
  declared : List String
  /-- Its most frequent identifiers with their counts. -/
  top : List (String × Nat)
  deriving DecidableEq, Repr

/-- At most forty declared names and the twelve most frequent identifiers. -/
def hints (text : String) : Hints :=
  let src := Source.ofString text
  ⟨declaredNames src 40, topIdentifiers src 12⟩

end CodeParts.Names
