/-!
# Text without terminal control

`withoutControl` keeps what a terminal would show as text: every character that is not a
control character, and white space. Control sequences, which begin with an escape
character, are left out whole.

Inside a sequence a white space character is still shown, and what follows it is taken for
text until the next character that is none; only then does the sequence go on.
-/

namespace CodeParts.Terminal

/-- Where in a control sequence a text stands. -/
inductive Place where
  /-- In none. -/
  | ground
  /-- After the escape character. -/
  | escape
  /-- After the escape character and blanks or punctuation. -/
  | intermediate
  /-- In the parameters of a sequence that ends with a letter or the like. -/
  | parameters
  /-- In a command string, which a bell ends. -/
  | command
  /-- At the start of the head of a device string. -/
  | deviceHead
  /-- After parameters in the head of a device string. -/
  | deviceParameters
  /-- After blanks or punctuation in the head of a device string. -/
  | deviceIntermediate
  /-- In any other string, or behind the head of a device string. -/
  | string
  deriving DecidableEq, Repr

/-- A character of one byte. -/
def isAscii (c : Char) : Bool := c.toNat < 128

/-- One of the control characters of ASCII, the delete character left out. -/
def isControl (c : Char) : Bool := c.toNat < 32

/-- White space of ASCII. -/
def isSpace (c : Char) : Bool := c ∈ [' ', '\t', '\n', '\x0c', '\r']

/-- The character is shown where no control sequence is open. -/
def isShown (c : Char) : Bool := isSpace c || (!isControl c && c != '\x7f')

/-- The byte that ends a string is among the bytes of the character. -/
def hasStringEnd (c : Char) : Bool := (String.singleton c).toUTF8.data.contains 0x9c

/-- Where a text stands after one more character of a control sequence. -/
def Place.next (p : Place) (c : Char) : Place :=
  if c = '\x18' ∨ c = '\x1a' then .ground
  else if c = '\x1b' then .escape
  else
    match p with
    | .ground => .ground
    | .escape =>
        if isControl c || !isAscii c || c = '\x7f' then .escape
        else if c < '0' then .intermediate
        else if c = '[' then .parameters
        else if c = ']' then .command
        else if c = 'P' then .deviceHead
        else if c ∈ ['X', '^', '_'] then .string
        else .ground
    | .intermediate => if c < '0' || !isAscii c || c = '\x7f' then .intermediate else .ground
    | .parameters => if c < '@' || !isAscii c || c = '\x7f' then .parameters else .ground
    | .command => if c = '\x07' then .ground else .command
    | .deviceHead =>
        if isControl c || !isAscii c || c = '\x7f' then .deviceHead
        else if c < '0' then .deviceIntermediate
        else if c < '@' then .deviceParameters
        else .string
    | .deviceParameters =>
        if isControl c || !isAscii c || c = '\x7f' then .deviceParameters
        else if c < '0' then .deviceIntermediate
        else if c < '<' then .deviceParameters
        else .string
    | .deviceIntermediate =>
        if c < '0' || !isAscii c || c = '\x7f' then .deviceIntermediate else .string
    | .string => if hasStringEnd c then .ground else .string

/-- The character is shown although the text may stand in a control sequence. -/
def Place.shows (p : Place) (c : Char) : Bool :=
  match p with
  | .ground => isShown c
  | .escape | .intermediate | .parameters => isSpace c && isControl c
  | .command | .deviceHead | .deviceParameters | .deviceIntermediate | .string => false

/-- The shown characters of a text that stands at a place; `showing` says whether the
character before was shown, so that the next one is taken for text. -/
def shownFrom : (showing : Bool) → (p : Place) → (cs : List Char) → List Char
  | _, _, [] => []
  | showing, p, c :: cs =>
      if showing && isShown c then
        c :: shownFrom true (if isAscii c then p else .ground) cs
      else if p.shows c then
        c :: shownFrom true (if isAscii c then p.next c else .ground) cs
      else
        shownFrom false (p.next c) cs

/-- The text without terminal control. -/
def withoutControl (s : String) : String := String.ofList (shownFrom false .ground s.toList)

end CodeParts.Terminal
