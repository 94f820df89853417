/-!
# Code, comments and quoted literals

A position of a source text lies in code, in a comment or in a quoted literal.
`State.advance` moves from one character to the next and is all there is: no
tokens and no syntax tree. The state also counts the braces that code has opened
and not yet closed.

Template literals are opaque: an interpolation does not return to code, so braces
inside it are not counted.
-/

namespace CodeParts.Lexer

/-- The three quote characters. -/
inductive Quote where
  | single
  | double
  | backtick
  deriving DecidableEq, Repr

/-- The character of a quote, which both opens and closes its literal. -/
def Quote.char : Quote → Char
  | .single => '\''
  | .double => '"'
  | .backtick => '\x60'

/-- The quote that a character is, if it is one. -/
def Quote.ofChar? (c : Char) : Option Quote :=
  if c = '\'' then some .single
  else if c = '"' then some .double
  else if c = '\x60' then some .backtick
  else none

/-- What kind of text a position lies in. -/
inductive Mode where
  | code
  | lineComment
  | blockComment
  | quoted (quote : Quote)
  deriving DecidableEq, Repr

/-- The character that ends the literal of a quoted mode. -/
def Mode.closingQuote : Mode → Option Char
  | .quoted q => some q.char
  | _ => none

/-- Whether the mode is code. -/
def Mode.isCode : Mode → Bool
  | .code => true
  | _ => false

/-- What is carried from one character to the next. -/
structure State where
  mode : Mode := .code
  /-- Opening braces of code without their closing brace; a stray closing brace
  leaves it at zero. A machine word counts the same as long as the depth stays below
  `wordSize`, and it does if the depth before a scan and the opening braces of the text
  together are fewer (`wordSteps_eq_steps_iff`, `depthsFit_of_count`). -/
  depth : Nat := 0
  /-- The next character of a quoted literal stands for itself. -/
  escaped : Bool := false
  deriving DecidableEq, Repr

/-- The state at the start of a text. -/
def State.initial : State := {}

/-- A state together with how many characters led to it: two for the markers that
open a comment and for the one that closes a block comment, else one. -/
structure Transition where
  state : State
  width : Nat
  deriving DecidableEq, Repr

namespace State

/-- The state after a character of code that is not part of a comment marker. -/
def afterCodeChar (s : State) (c : Char) : State :=
  match Quote.ofChar? c with
  | some q => { s with mode := .quoted q }
  | none =>
      if c = '{' then { s with depth := s.depth + 1 }
      else if c = '}' then { s with depth := s.depth - 1 }
      else s

/-- The state after a character of a literal in quotes `q`: a backslash escapes the
next character, and only an unescaped quote of the same kind ends the literal. -/
def afterQuotedChar (s : State) (q : Quote) (c : Char) : State :=
  if s.escaped then { s with escaped := false }
  else if c = '\\' then { s with escaped := true }
  else if c = q.char then { s with mode := .code }
  else s

/-- One transition over the character `c`, looking at the next one for the markers
of two characters. -/
def advance (s : State) (c : Char) (next : Option Char) : Transition :=
  match s.mode with
  | .code =>
      if c = '/' ∧ next = some '/' then ⟨{ s with mode := .lineComment }, 2⟩
      else if c = '/' ∧ next = some '*' then ⟨{ s with mode := .blockComment }, 2⟩
      else ⟨s.afterCodeChar c, 1⟩
  | .lineComment => ⟨if c = '\n' then { s with mode := .code } else s, 1⟩
  | .blockComment =>
      if c = '*' ∧ next = some '/' then ⟨{ s with mode := .code }, 2⟩ else ⟨s, 1⟩
  | .quoted q => ⟨s.afterQuotedChar q c, 1⟩

end State

end CodeParts.Lexer
