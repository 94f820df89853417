/-!
# White space

The twenty-five characters with the property White_Space, which decides what is
trimmed, what a blank line is and what the space of a pattern stands for.
-/

namespace CodeParts

/-- The character has the property White_Space. -/
def isBlank (c : Char) : Bool :=
  let n := c.toNat
  (9 ≤ n && n ≤ 13) || n == 0x20 || n == 0x85 || n == 0xA0 || n == 0x1680 ||
    (0x2000 ≤ n && n ≤ 0x200A) || n == 0x2028 || n == 0x2029 || n == 0x202F ||
    n == 0x205F || n == 0x3000

/-- The text without blanks at its start. -/
def trimStart (cs : List Char) : List Char := cs.dropWhile isBlank

/-- The text without blanks at its end. -/
def trimEnd (cs : List Char) : List Char := (cs.reverse.dropWhile isBlank).reverse

/-- The text without blanks at either end. -/
def trim (cs : List Char) : List Char := trimEnd (trimStart cs)

/-- A text of blanks alone. -/
def allBlank (cs : List Char) : Bool := cs.all isBlank

/-- A name as a person may type it: without blanks around it and with its ASCII
letters in lower case. -/
def normalizedName (s : String) : String := String.ofList ((trim s.toList).map Char.toLower)

end CodeParts
