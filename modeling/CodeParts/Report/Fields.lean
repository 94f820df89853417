import CodeParts.Construct
import CodeParts.Grep
import CodeParts.Json
import CodeParts.Names.Index
import CodeParts.Split.Stats

/-!
# Results as JSON

The fields of each kind of result in the order in which a report shows them. A result that
is part of a larger one contributes its fields directly, so the functions return lists of
fields.
-/

namespace CodeParts.Report

/-- A name with its count. -/
def rankedJson (r : String × Nat) : Json := .array [.string r.1, Json.ofNat r.2]

/-- Hints about a text. -/
def hintsJson (h : Names.Hints) : Json := .object [
  ("defines", Json.ofList Json.string h.declared),
  ("top_identifiers", Json.ofList rankedJson h.top)]

/-- The fields of a part. -/
def partFields (p : Part) : List (String × Json) := [
  ("ordinal", Json.ofNat p.ordinal), ("total_count", Json.ofNat p.total),
  ("start_offset", Json.ofNat p.start), ("end_offset", Json.ofNat p.stop),
  ("text", .string p.text), ("start_line", Json.ofNat p.startLine),
  ("end_line", Json.ofNat p.endLine), ("depth_in", Json.ofNat p.depthIn),
  ("depth_out", Json.ofNat p.depthOut), ("first_line", .string p.firstLine),
  ("last_line", .string p.lastLine), ("content_hash", .string p.digest)]

/-- The figures of a split. -/
def statsJson (s : Split.Stats) : Json := .object [
  ("total_chunks", Json.ofNat s.parts), ("total_chars", Json.ofNat s.chars),
  ("total_lines", Json.ofNat s.lines), ("largest_chunk_chars", Json.ofNat s.largestChars),
  ("balanced_chunks", Json.ofNat s.balanced), ("oversized_chunks", Json.ofNat s.oversized)]

/-- The name of a kind of construct. -/
def kindName : Construct.Kind → String
  | .function => "function"
  | .asyncFunction => "async_function"
  | .generatorFunction => "generator_function"
  | .functionExpression => "function_expression"
  | .arrowFunction => "arrow_function"
  | .classDeclaration => "class"
  | .definition => "def"
  | .asyncDefinition => "async_def"

/-- The name of the reason for which there is no construct. -/
def failureName? : Extraction → Option String
  | .found _ => none
  | .notFound => some "not_found"
  | .unterminated _ => some "unterminated_block"

/-- The fields of an extraction; without a construct its place is all zeros, and the kind
and the reason are left out where there is none. -/
def extractionFields (e : Extraction) : List (String × Json) :=
  [("found", .bool e.construct?.isSome),
    ("start_offset", Json.ofNat ((e.construct?.map (·.start)).getD 0)),
    ("end_offset", Json.ofNat ((e.construct?.map (·.stop)).getD 0)),
    ("body", .string ((e.construct?.map (·.body)).getD "")),
    ("start_line", Json.ofNat ((e.construct?.map (·.startLine)).getD 0)),
    ("end_line", Json.ofNat ((e.construct?.map (·.endLine)).getD 0))] ++
  (e.kind?.map fun k => ("kind", .string (kindName k))).toList ++
  ((failureName? e).map fun r => ("reason", .string r)).toList

/-- A window around a hit. -/
def windowJson (w : Grep.Window) : Json := .object [
  ("hit_line_number", Json.ofNat w.hitLine), ("window_start", Json.ofNat w.firstLine),
  ("window_end", Json.ofNat w.lastLine), ("text", .string w.text)]

/-- The fields of a search. -/
def searchFields (r : Grep.Result) : List (String × Json) :=
  [("hit_count", Json.ofNat r.hitCount), ("matches", Json.ofList windowJson r.windows)]

/-- A list of names. -/
def nameListJson (l : Names.NameList) : Json := .object [
  ("total", Json.ofNat l.total), ("items", Json.ofList Json.string l.items.toList)]

/-- The fields of an index. -/
def indexFields (i : Names.Index) : List (String × Json) := [
  ("identifiers", nameListJson i.identifiers),
  ("top_identifiers", Json.ofList rankedJson i.top),
  ("dom_ids", nameListJson i.domIds), ("dom_classes", nameListJson i.domClasses),
  ("dom_names", nameListJson i.domNames), ("selectors", nameListJson i.selectors),
  ("local_storage_keys", nameListJson i.localKeys),
  ("session_storage_keys", nameListJson i.sessionKeys)]

end CodeParts.Report
