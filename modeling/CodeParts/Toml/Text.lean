/-!
# White space, comments and strings of TOML

Each function takes the text that is left and returns what it read with what it leaves.
Where a loop needs fuel, one more than the length of the whole text is enough.
-/

namespace CodeParts.Toml

/-! ### White space and comments -/

/-- White space within a line. -/
def isSpace (c : Char) : Bool := c = ' ' || c = '\t'

/-- The text from the first character that is not white space within a line. -/
def skipSpace (cs : List Char) : List Char := cs.dropWhile isSpace

/-- What follows a newline, if the text begins with one. -/
def newline? : (cs : List Char) → Option (List Char)
  | '\n' :: cs => some cs
  | '\r' :: '\n' :: cs => some cs
  | _ => none

/-- A character that may stand in a comment. -/
def isCommentChar (c : Char) : Bool := c = '\t' || (0x20 ≤ c.toNat && c.toNat ≠ 0x7F)

/-- What follows a comment, if the text begins with one. -/
def skipComment : (cs : List Char) → List Char
  | '#' :: cs => cs.dropWhile isCommentChar
  | cs => cs

/-- What follows the rest of a line on which only white space and a comment are left. -/
def lineRest? (cs : List Char) : Option (List Char) :=
  match skipComment (skipSpace cs) with
  | [] => some []
  | rest => newline? rest

/-- What follows any white space, newlines and comments. The fuel bounds the lines. -/
def skipBlank : (fuel : Nat) → (cs : List Char) → List Char
  | 0, cs => cs
  | fuel + 1, cs =>
      match newline? (skipComment (skipSpace cs)) with
      | some rest => skipBlank fuel rest
      | none =>
          match skipSpace cs with
          | '#' :: rest => skipComment ('#' :: rest)
          | rest => rest

/-! ### Strings -/

/-- The number of digits of base sixteen at the start of a text, if there are `n`, with
their value and what follows. -/
def hexRun? (n : Nat) (value : Nat) (cs : List Char) : Option (Nat × List Char) :=
  match n, cs with
  | 0, cs => some (value, cs)
  | _ + 1, [] => none
  | n + 1, c :: cs =>
      if '0' ≤ c ∧ c ≤ '9' then hexRun? n (value * 16 + (c.toNat - '0'.toNat)) cs
      else if 'a' ≤ c ∧ c ≤ 'f' then hexRun? n (value * 16 + (c.toNat - 'a'.toNat + 10)) cs
      else if 'A' ≤ c ∧ c ≤ 'F' then hexRun? n (value * 16 + (c.toNat - 'A'.toNat + 10)) cs
      else none

/-- The character with a number, if there is one. -/
def charOf? (n : Nat) : Option Char := if n.isValidChar then some (Char.ofNat n) else none

/-- The character after a backslash. -/
def escape? : (cs : List Char) → Option (Char × List Char)
  | 'b' :: cs => some ('\x08', cs)
  | 't' :: cs => some ('\t', cs)
  | 'n' :: cs => some ('\n', cs)
  | 'f' :: cs => some ('\x0c', cs)
  | 'r' :: cs => some ('\r', cs)
  | '"' :: cs => some ('"', cs)
  | '\\' :: cs => some ('\\', cs)
  | 'u' :: cs => do
      let (n, rest) ← hexRun? 4 0 cs
      some (← charOf? n, rest)
  | 'U' :: cs => do
      let (n, rest) ← hexRun? 8 0 cs
      some (← charOf? n, rest)
  | _ => none

/-- A character that may stand in a string as it is. -/
def isStringChar (c : Char) : Bool := c = '\t' || (0x20 ≤ c.toNat && c.toNat ≠ 0x7F)

/-- How the characters of a string are delimited and read. -/
structure StringForm where
  quote : Char
  /-- A backslash begins an escape. -/
  escapes : Bool
  /-- Three quotes delimit the string, which may hold newlines. -/
  manyLines : Bool

/-- What follows blank space over several lines. The fuel bounds it. -/
def skipFold : (fuel : Nat) → (cs : List Char) → List Char
  | 0, cs => cs
  | fuel + 1, cs =>
      match newline? (skipSpace cs) with
      | some rest => skipFold fuel rest
      | none => skipSpace cs

/-- The characters of a string after its opening, newest of those already read first.
Where three quotes close a string, one or two more belong to it. The fuel bounds the
length. -/
def stringTail? (form : StringForm) (done : List Char) : (fuel : Nat) → (cs : List Char) →
    Option (String × List Char)
  | 0, _ => none
  | _ + 1, [] => none
  | fuel + 1, c :: cs =>
      if c = form.quote then
        if form.manyLines then
          let extra := (cs.takeWhile (· == form.quote)).length
          if 2 ≤ extra then
            some (String.ofList (List.replicate (min (extra - 2) 2) c ++ done).reverse,
              cs.drop (min extra 4))
          else stringTail? form (c :: done) fuel cs
        else some (String.ofList done.reverse, cs)
      else if c = '\\' ∧ form.escapes then
        match newline? (skipSpace cs) with
        | some rest =>
            if form.manyLines then stringTail? form done fuel (skipFold fuel rest)
            else none
        | none =>
            match escape? cs with
            | some (e, rest) => stringTail? form (e :: done) fuel rest
            | none => none
      else if isStringChar c then stringTail? form (c :: done) fuel cs
      else if form.manyLines then
        match newline? (c :: cs) with
        | some rest => stringTail? form ('\n' :: done) fuel rest
        | none => none
      else none

/-- A string on one line, in either kind of quotes. -/
def lineString? (fuel : Nat) : (cs : List Char) → Option (String × List Char)
  | '"' :: cs => stringTail? ⟨'"', true, false⟩ [] fuel cs
  | '\'' :: cs => stringTail? ⟨'\'', false, false⟩ [] fuel cs
  | _ => none

/-- A string over several lines; a newline just after its opening does not count. -/
def blockString? (fuel : Nat) (quote : Char) (escapes : Bool) (cs : List Char) :
    Option (String × List Char) :=
  stringTail? ⟨quote, escapes, true⟩ [] fuel ((newline? cs).getD cs)

/-- A string of any kind. -/
def string? (fuel : Nat) : (cs : List Char) → Option (String × List Char)
  | '"' :: '"' :: '"' :: cs => blockString? fuel '"' true cs
  | '\'' :: '\'' :: '\'' :: cs => blockString? fuel '\'' false cs
  | cs => lineString? fuel cs

end CodeParts.Toml
