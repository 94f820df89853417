/-!
# Words of a command line

A word that begins with a dash is an option, several one-letter options, or the separator
after which no word is one. A lone dash is no option. Every other word is an operand.
-/

namespace CodeParts.CommandLine

/-- A word by its form. -/
inductive Word where
  /-- Two dashes. -/
  | separator
  /-- An option by its long name, with a value after an equals sign. -/
  | long (name : String) (value : Option String)
  /-- Options by their letters, perhaps with a value after them. -/
  | letters (cs : List Char)
  | operand (s : String)
  deriving DecidableEq, Repr

namespace Word

/-- A name and what stands after the first equals sign, if there is one. -/
def splitValue (cs : List Char) : String × Option String :=
  (String.ofList (cs.takeWhile (· != '=')),
    match cs.dropWhile (· != '=') with
    | [] => none
    | _ :: value => some (String.ofList value))

/-- The form of a word. -/
def ofString (s : String) : Word :=
  match s.toList with
  | ['-', '-'] => .separator
  | '-' :: '-' :: cs => .long (splitValue cs).1 (splitValue cs).2
  | '-' :: c :: cs => .letters (c :: cs)
  | _ => .operand s

/-- Whether the word is an operand wherever it stands. -/
def isOperand : Word → Bool
  | .operand _ => true
  | _ => false

end Word

end CodeParts.CommandLine
