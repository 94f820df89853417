/-!
# Lines of a text

`splitLines` cuts a text after each newline, so that joining the lines gives the text
back (`flatten_splitLines`). `chomp` takes the terminator off a line: a newline, and
a carriage return in front of it.
-/

namespace CodeParts

/-- The lines of a text, each with its newline; nothing after a final newline is no
line. -/
def splitLines : List Char → List (List Char)
  | [] => []
  | c :: cs =>
      if c = '\n' then [c] :: splitLines cs
      else
        match splitLines cs with
        | [] => [[c]]
        | l :: ls => (c :: l) :: ls

/-- A line without its terminator; a carriage return with no newline after it stays. -/
def chomp (line : List Char) : List Char :=
  match line.reverse with
  | '\n' :: '\r' :: r => r.reverse
  | '\n' :: r => r.reverse
  | _ => line

/-- The first line without its terminator, empty for the empty text. -/
def firstLine (cs : List Char) : List Char := chomp ((splitLines cs).head?.getD [])

/-- The last line without its terminator, empty for the empty text. -/
def lastLine (cs : List Char) : List Char := chomp ((splitLines cs).getLast?.getD [])

@[simp] theorem flatten_splitLines (cs : List Char) : (splitLines cs).flatten = cs := by
  induction cs with
  | nil => rfl
  | cons c cs ih =>
      unfold splitLines
      split
      · simp [ih]
      · split
        · next h => simp [h] at ih; simp [← ih]
        · next l ls h => simp [h] at ih; simp [ih]

end CodeParts
