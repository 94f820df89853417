/-!
# Room for a name

What is looked for must not grow without bound, so each form of declaration has a limit on
its space. The space is that of an automaton that reads the form byte by byte: one state
for each byte of the name, and a fixed number of bytes for all that stands around the name.
A name for which a form has no room is not looked for in that form.

The numbers come from inside the regular-expression library that reads the forms, `regex`, of
which a version from 1.11 on is asked for and no exact one. Ten mebibytes are its default limit
for one pattern. It measures the automata that it builds, of which the one that reads a text
backwards is the larger for every form here: 32 bytes a state, 8 more for each range of bytes of
a state with several, and 4 more for each way out of a state that branches. The `fixedSpace` of a
form is this count for its automaton without the name, so that the longest names with room have
between 327471 and 327605 bytes, depending on the form.
-/

namespace CodeParts.Construct

/-- The space that one form may take, in bytes: ten mebibytes. -/
def spaceLimit : Nat := 10 * Nat.pow 2 20

/-- The space of one state. -/
def stateSpace : Nat := 32

/-- The number of bytes of a name. -/
def nameBytes (name : List Char) : Nat := (name.map Char.utf8Size).foldr (· + ·) 0

/-- A form whose other parts take `fixedSpace` has room for a name. -/
def hasRoom (fixedSpace : Nat) (name : List Char) : Bool :=
  decide (stateSpace * nameBytes name + fixedSpace ≤ spaceLimit)

end CodeParts.Construct
