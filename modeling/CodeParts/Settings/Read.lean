import CodeParts.Json.Read
import CodeParts.Settings
import CodeParts.Text.Visible
import CodeParts.Toml.Read

/-!
# Settings from a file

A settings file is a JSON object or a TOML document. Each key it has sets one field and
all others keep their defaults, so the file is a field-wise overlay (`Settings.ofFields`).
Keys that no field has are refused before any value is looked at.
-/

namespace CodeParts.Settings

/-! ### Errors -/

/-- What a value is, for an error about its type. -/
inductive Found where
  | null
  | bool (b : Bool)
  | number (n : Json.Number)
  | string (s : String)
  | sequence
  | map

/-- Why the value of a field does not fit. -/
inductive FieldError where
  /-- A value of another type. -/
  | invalidType (found : Found) (expected : String)
  /-- A value of the right type but out of range. -/
  | invalidValue (found : Found) (expected : String)
  /-- A name that no variant has. -/
  | unknownVariant (name : String)

/-- Why a file gives no settings. -/
inductive ReadError where
  /-- The bytes are no UTF-8 text. -/
  | notUtf8
  /-- The text is neither JSON nor TOML. -/
  | malformed
  /-- The value is no object. -/
  | notTable
  /-- Keys that no field has, in increasing order. -/
  | unknownFields (keys : List String)
  /-- A field with a value that does not fit. -/
  | badField (e : FieldError)

/-- What was found, in words. -/
def Found.description : Found → String
  | .null => "null"
  | .bool true => "boolean \x60true\x60"
  | .bool false => "boolean \x60false\x60"
  | .number (.float x) => "floating point \x60" ++ Decimal.scientific x ++ "\x60"
  | .number n => "integer \x60" ++ n.text ++ "\x60"
  | .string s => "string " ++ visiblyQuoted s
  | .sequence => "sequence"
  | .map => "map"

/-- What a value is. -/
def Found.ofJson : Json → Found
  | .null => .null
  | .bool b => .bool b
  | .number n => .number n
  | .string s => .string s
  | .array _ => .sequence
  | .object _ => .map

/-- All names of strategies in a file, with the strategy each stands for. -/
def strategyNames : List (String × Strategy) := [
  ("C", .strict), ("c", .strict), ("strict", .strict), ("A", .constructPriority),
  ("a", .constructPriority), ("construct-priority", .constructPriority),
  ("construct_priority", .constructPriority), ("B", .hybrid), ("b", .hybrid),
  ("hybrid", .hybrid)]

/-- An error about a field in words. -/
def FieldError.message : FieldError → String
  | .invalidType found expected =>
      "invalid type: " ++ found.description ++ ", expected " ++ expected
  | .invalidValue found expected =>
      "invalid value: " ++ found.description ++ ", expected " ++ expected
  | .unknownVariant name =>
      "unknown variant \x60" ++ name ++ "\x60, expected one of " ++
        ", ".intercalate (strategyNames.map fun (n, _) => "\x60" ++ n ++ "\x60")

/-- An error about a file in words, except that of a text that cannot be read at all. -/
def ReadError.message : ReadError → String
  | .notUtf8 => "Config is not valid UTF-8"
  | .malformed => "Config is not valid JSON or TOML"
  | .notTable => "Config must be a table/object"
  | .unknownFields keys => "Unknown config fields: " ++ ", ".intercalate keys
  | .badField e => "Config parse error: " ++ e.message

/-! ### Fields -/

/-- A natural number. -/
def natural (v : Json) : Except FieldError Nat :=
  match v with
  | .number (.natural n) => .ok n
  | .number (.negative n) => .error (.invalidValue (.number (.negative n)) "usize")
  | v => .error (.invalidType (.ofJson v) "usize")

/-- A float, which may be written as a whole number. -/
def float (v : Json) : Except FieldError Float :=
  match v with
  | .number (.natural n) => .ok n.toUInt64.toFloat
  | .number (.negative n) => .ok (-n.toUInt64.toFloat)
  | .number (.float x) => .ok x
  | v => .error (.invalidType (.ofJson v) "f64")

/-- A strategy by one of its names in a file. -/
def strategyNamed (name : String) : Except FieldError Strategy :=
  match strategyNames.find? (·.1 == name) with
  | some (_, s) => .ok s
  | none => .error (.unknownVariant name)

/-- A strategy: its name, or an object with its name as the only key and no value. -/
def strategyOf (v : Json) : Except FieldError Strategy :=
  match v with
  | .string name => strategyNamed name
  | .object [(name, v)] =>
      match strategyNamed name, v with
      | .ok s, .null => .ok s
      | .ok _, v => .error (.invalidType (.ofJson v) "unit")
      | .error e, _ => .error e
  | .object _ => .error (.invalidValue .map "map with a single key")
  | v => .error (.invalidType (.ofJson v) "string or map")

/-- The settings with one field set; a key that no field has changes nothing. -/
def setField (s : Settings) (key : String) (v : Json) : Except FieldError Settings :=
  if key = "max_chars" then (natural v).map fun n => { s with maxChars := n }
  else if key = "max_lines" then (natural v).map fun n => { s with maxLines := n }
  else if key = "strategy" then (strategyOf v).map fun x => { s with strategy := x }
  else if key = "grace_ratio" then (float v).map fun x => { s with graceRatio := x }
  else if key = "context_lines" then (natural v).map fun n => { s with contextLines := n }
  else if key = "max_matches" then (natural v).map fun n => { s with maxMatches := n }
  else .ok s

/-- The keys of the fields. -/
def fieldKeys : List String :=
  ["max_chars", "max_lines", "strategy", "grace_ratio", "context_lines", "max_matches"]

/-- The settings with each given field set, in order, unless one does not fit. -/
def ofFields (s : Settings) : List (String × Json) → Except FieldError Settings
  | [] => .ok s
  | (k, v) :: fields =>
      match s.setField k v with
      | .ok s => ofFields s fields
      | .error e => .error e

/-- The keys that no field has, in increasing order. -/
def unknownKeys (fields : List (String × Json)) : List String :=
  ((fields.map (·.1)).filter (· ∉ fieldKeys)).mergeSort fun a b => decide (a ≤ b)

/-- The settings that a value gives. -/
def ofJson (v : Json) : Except ReadError Settings :=
  match v with
  | .object fields =>
      match unknownKeys fields with
      | [] => (ofFields {} (fields.mergeSort fun a b => decide (a.1 ≤ b.1))).mapError .badField
      | key :: keys => .error (.unknownFields (key :: keys))
  | _ => .error .notTable

/-- The value whose fields are these settings. -/
def toJson (s : Settings) : Json := .object [
  ("max_chars", Json.ofNat s.maxChars), ("max_lines", Json.ofNat s.maxLines),
  ("strategy", .string s.strategy.name), ("grace_ratio", .number (.float s.graceRatio)),
  ("context_lines", Json.ofNat s.contextLines), ("max_matches", Json.ofNat s.maxMatches)]

/-! ### Files -/

/-- The settings that a text gives, read as JSON and, if it is none, as TOML. -/
def ofText (cs : List Char) : Except ReadError Settings :=
  match (Json.read? cs).orElse fun _ => Toml.read? cs with
  | some v => ofJson v
  | none => .error .malformed

/-- The settings that the bytes of a file give. -/
def ofBytes (bytes : ByteArray) : Except ReadError Settings :=
  match String.fromUTF8? bytes with
  | some text => ofText text.toList
  | none => .error .notUtf8

end CodeParts.Settings
