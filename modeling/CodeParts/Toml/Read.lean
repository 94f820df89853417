import CodeParts.Toml.DateTable
import CodeParts.Toml.Table

/-!
# Reading TOML

`Toml.read?` accepts TOML 1.0 documents, with values and keys nested less than eighty
deep, and gives the JSON value of the whole document. Dates become objects with one
reserved key, and numbers that are not finite become null.
-/

namespace CodeParts.Toml

/-- Values nest and keys are dotted less deep than this. -/
def depthLimit : Nat := 80

/-! ### Keys -/

/-- A character of a bare key. -/
def isKeyChar (c : Char) : Bool := c.isAlphanum || c == '_' || c == '-'

/-- One part of a key. -/
def keyPart? (fuel : Nat) (cs : List Char) : Option (String × List Char) :=
  match lineString? fuel cs with
  | some r => some r
  | none =>
      if (cs.takeWhile isKeyChar).isEmpty then none
      else some (String.ofList (cs.takeWhile isKeyChar), cs.dropWhile isKeyChar)

/-- At most so many parts of a key, with dots between them. -/
def keyParts? (fuel : Nat) : (limit : Nat) → (cs : List Char) → Option (List String × List Char)
  | 0, _ => none
  | limit + 1, cs => do
      let (part, rest) ← keyPart? fuel (skipSpace cs)
      match skipSpace rest with
      | '.' :: rest =>
          let (parts, rest) ← keyParts? fuel limit rest
          some (part :: parts, rest)
      | rest => some ([part], rest)

/-- A key: the path of its tables and its last part. -/
def key? (fuel : Nat) (cs : List Char) : Option ((List String × String) × List Char) := do
  let (parts, rest) ← keyParts? fuel (depthLimit - 1) cs
  some ((parts.dropLast, ← parts.getLast?), rest)

/-! ### Values -/

/-- The elements of an array after its opening bracket, newest of those already read
first. The fuel bounds their number. -/
def elements? (value? : List Char → Option (Json × List Char)) (done : List Json) :
    (fuel : Nat) → (cs : List Char) → Option (List Json × List Char)
  | 0, _ => none
  | fuel + 1, cs =>
      match skipBlank (fuel + 1) cs with
      | ']' :: rest => some (done.reverse, rest)
      | cs =>
          match value? cs with
          | none => none
          | some (v, rest) =>
              match skipBlank (fuel + 1) rest with
              | ',' :: rest => elements? value? (v :: done) fuel rest
              | ']' :: rest => some ((v :: done).reverse, rest)
              | _ => none

/-- The entries of an inline table after its first key, added to those already read. The
fuel bounds their number. -/
def inlineEntries? (value? : List Char → Option (Json × List Char)) (es : Entries) :
    (fuel : Nat) → (cs : List Char) → Option (Entries × List Char)
  | 0, _ => none
  | fuel + 1, cs => do
      let ((path, last), rest) ← key? (fuel + 1) cs
      let (v, rest) ← value? (skipSpace (← past? '=' rest))
      let es ← es.add path last v
      match skipSpace rest with
      | ',' :: rest => inlineEntries? value? es fuel rest
      | '\x7d' :: rest => some (es, rest)
      | _ => none

/-- An inline table after its opening brace. -/
def inlineTable? (value? : List Char → Option (Json × List Char)) (fuel : Nat)
    (cs : List Char) : Option (Json × List Char) :=
  match skipSpace cs with
  | '\x7d' :: rest => some (.object [], rest)
  | cs =>
      (inlineEntries? value? [] fuel cs).map fun (es, rest) =>
        (.object (fieldsToJson es), rest)

/-- A value that nests at most `depth` deep. -/
def value? (fuel depth : Nat) (cs : List Char) : Option (Json × List Char) :=
  match cs, depth with
  | '"' :: _, _ => (string? fuel cs).map fun (s, rest) => (.string s, rest)
  | '\'' :: _, _ => (string? fuel cs).map fun (s, rest) => (.string s, rest)
  | '[' :: rest, depth + 1 =>
      (elements? (value? fuel depth) [] fuel rest).map fun (vs, rest) => (.array vs, rest)
  | '\x7b' :: rest, depth + 1 => inlineTable? (value? fuel depth) fuel rest
  | 't' :: 'r' :: 'u' :: 'e' :: rest, _ => some (.bool true, rest)
  | 'f' :: 'a' :: 'l' :: 's' :: 'e' :: rest, _ => some (.bool false, rest)
  | _, _ => number? cs

/-! ### Documents -/

/-- What has been read: all tables, and the path of the one that keys now belong to. -/
structure Document where
  root : Entries
  current : List String

/-- The document after a line with a header, read from behind its first bracket. -/
def header? (fuel : Nat) (d : Document) (cs : List Char) : Option (Document × List Char) :=
  match cs with
  | '[' :: cs => do
      let ((path, last), rest) ← key? fuel cs
      let rest ← lineRest? (← past? ']' (← past? ']' rest))
      let root ← d.root.modifyAt path (Entries.openElement last)
      some (⟨root, path ++ [last]⟩, rest)
  | cs => do
      let ((path, last), rest) ← key? fuel cs
      let rest ← lineRest? (← past? ']' rest)
      let root ← d.root.modifyAt path (Entries.openTable last)
      some (⟨root, path ++ [last]⟩, rest)

/-- The document after a line with a key and its value. -/
def entry? (fuel : Nat) (d : Document) (cs : List Char) : Option (Document × List Char) := do
  let ((path, last), rest) ← key? fuel cs
  let (v, rest) ← value? fuel (depthLimit - 1) (skipSpace (← past? '=' rest))
  let rest ← lineRest? rest
  let root ← d.root.modifyAt d.current (Entries.add path last v)
  some (⟨root, d.current⟩, rest)

/-- The document after all that is left. The fuel bounds the lines. -/
def document? (d : Document) : (fuel : Nat) → (cs : List Char) → Option Document
  | 0, _ => none
  | fuel + 1, cs =>
      match skipSpace cs with
      | [] => some d
      | '[' :: rest =>
          match header? (fuel + 1) d rest with
          | some (d, rest) => document? d fuel rest
          | none => none
      | c :: rest =>
          match lineRest? (c :: rest) with
          | some rest => document? d fuel rest
          | none =>
              match entry? (fuel + 1) d (c :: rest) with
              | some (d, rest) => document? d fuel rest
              | none => none

/-- The value of a document; a byte-order mark at its start does not count. -/
def read? (cs : List Char) : Option Json :=
  let cs := match cs with
    | '\uFEFF' :: cs => cs
    | cs => cs
  (document? ⟨[], []⟩ (cs.length + 1) cs).bind fun d => withDates? (.object (fieldsToJson d.root))

end CodeParts.Toml
