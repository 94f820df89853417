import CodeParts.Json

/-!
# Tables of a TOML document while it is read

A table is opened by its header, by the path of a longer header, or by a dotted key, and
what may be added to it later depends on which it was. `add` puts a value under a dotted
key, `openTable` and `openElement` follow a header; each refuses what would define a key
or a table twice.
-/

namespace CodeParts.Toml

/-- What brought a table into being. -/
inductive Origin where
  /-- A header of its own. -/
  | header
  /-- The path of a longer header. -/
  | path
  /-- A dotted key. -/
  | dotted
  deriving DecidableEq, Repr

/-- What a key of a table stands for. -/
inductive Node where
  | value (v : Json)
  | table (origin : Origin) (entries : List (String × Node))
  /-- The elements of an array of tables: the last one and those before it, the latest
  first. -/
  | tables (last : List (String × Node)) (before : List (List (String × Node)))

/-- The entries of a table in order. -/
abbrev Entries := List (String × Node)

namespace Entries

/-- What `key` stands for. -/
def get? (es : Entries) (key : String) : Option Node := (es.find? (·.1 == key)).map (·.2)

/-- The entries with another meaning of a key that is there. -/
def set (es : Entries) (key : String) (n : Node) : Entries :=
  es.map fun e => if e.1 == key then (key, n) else e

/-- The entries with a new key at the end. -/
def append (es : Entries) (key : String) (n : Node) : Entries := es ++ [(key, n)]

/-- The entries without a key. -/
def erase (es : Entries) (key : String) : Entries := es.filter fun e => e.1 != key

/-- A value under the dotted key that consists of a path and a last part. Tables on the
way may have come from dotted keys or, before the last one, from the path of a header. -/
def add (path : List String) (key : String) (v : Json) (es : Entries) : Option Entries :=
  match path with
  | [] => if (es.get? key).isSome then none else some (es.append key (.value v))
  | p :: ps =>
      match es.get? p with
      | none => (add ps key v []).map fun inner => es.append p (.table .dotted inner)
      | some (.table origin inner) =>
          if origin = .header ∨ (ps.isEmpty ∧ origin ≠ .dotted) then none
          else (add ps key v inner).map fun inner => es.set p (.table origin inner)
      | some (.tables last before) =>
          if ps.isEmpty then none
          else (add ps key v last).map fun inner => es.set p (.tables inner before)
      | some (.value _) => none

/-- Changes the table at the path of a header, opening tables on the way; an array of
tables stands for its last element. -/
def modifyAt (path : List String) (f : Entries → Option Entries) (es : Entries) :
    Option Entries :=
  match path with
  | [] => f es
  | p :: ps =>
      match es.get? p with
      | none => (modifyAt ps f []).map fun inner => es.append p (.table .path inner)
      | some (.table origin inner) =>
          (modifyAt ps f inner).map fun inner => es.set p (.table origin inner)
      | some (.tables last before) =>
          (modifyAt ps f last).map fun inner => es.set p (.tables inner before)
      | some (.value _) => none

/-- Opens the table of a header, at the end of the entries; it may have come from the path
of a longer one. -/
def openTable (key : String) (es : Entries) : Option Entries :=
  match es.get? key with
  | none => some (es.append key (.table .header []))
  | some (.table .path inner) => some ((es.erase key).append key (.table .header inner))
  | some _ => none

/-- Opens the next element of an array of tables. -/
def openElement (key : String) (es : Entries) : Option Entries :=
  match es.get? key with
  | none => some (es.append key (.tables [] []))
  | some (.tables last before) => some (es.set key (.tables [] (last :: before)))
  | some _ => none

end Entries

mutual

/-- The value that a node stands for. -/
def Node.toJson : Node → Json
  | .value v => v
  | .table _ entries => .object (fieldsToJson entries)
  | .tables last before =>
      .array (elementsToJson before [.object (fieldsToJson last)])

/-- The fields that entries stand for. -/
def fieldsToJson : List (String × Node) → List (String × Json)
  | [] => []
  | (k, n) :: es => (k, n.toJson) :: fieldsToJson es

/-- The values that elements stand for, the latest first, in order and before others. -/
def elementsToJson : List (List (String × Node)) → List Json → List Json
  | [], values => values
  | es :: before, values => elementsToJson before (.object (fieldsToJson es) :: values)

end

end CodeParts.Toml
