import CodeParts.Report.Fields
import CodeParts.Text.Blank

/-!
# Reports

What a command shows about a file: a text for readers or JSON for programs. Texts are made
of whole lines; the newline after the last one is left to whoever prints it.
-/

namespace CodeParts

namespace Report

/-! ### Pieces of text -/

/-- How many digits of a digest a text shows. -/
def shortDigestLength : Nat := 12

/-- How many characters of a line a text shows. -/
def shortLineLength : Nat := 100

/-- A line without carriage returns at its end, cut with an ellipsis if it is long. -/
def shortLine (line : String) : String :=
  let cs := (line.toList.reverse.dropWhile (· == '\r')).reverse
  if cs.length ≤ shortLineLength then String.ofList cs
  else String.ofList (cs.take shortLineLength ++ ['…'])

/-- Names with their counts in parentheses. -/
def rankedText (top : List (String × Nat)) : String :=
  " ".intercalate (top.map fun (name, count) => s!"{name}({count})")

/-! ### Splits -/

/-- The parts of a file. -/
structure OfSplit where
  file : String
  strategy : Strategy
  stats : Split.Stats
  /-- Each part, with hints about it if they were asked for. -/
  parts : List (Part × Option Names.Hints)

/-- The lines about the hints of a part. -/
def hintLines (h : Names.Hints) : List String :=
  (if h.declared.isEmpty then []
    else ["    defines: " ++ ", ".intercalate h.declared ++ "\n"]) ++
    (if h.top.isEmpty then [] else ["    top: " ++ rankedText h.top ++ "\n"])

/-- The lines about a part. -/
def partLines (p : Part) (hints : Option Names.Hints) : List String :=
  let digest := String.ofList (p.digest.toList.take shortDigestLength)
  [s!"[{p.ordinal}/{p.total}] lines {p.startLine}-{p.endLine} chars {p.start}..{p.stop} " ++
      s!"depth {p.depthIn}->{p.depthOut} sha256 {digest}\n",
    s!"    first: {shortLine p.firstLine}\n",
    s!"    last:  {shortLine p.lastLine}\n"] ++
  (hints.map hintLines).getD []

/-- The report as text. -/
def OfSplit.text (r : OfSplit) : String :=
  String.join (r.parts.flatMap fun (p, hints) => partLines p hints) ++ r.stats.summary

/-- The report as JSON. -/
def OfSplit.json (r : OfSplit) : Json := .object [
  ("file", .string r.file), ("strategy", .string r.strategy.name), ("stats", statsJson r.stats),
  ("chunks", Json.ofList
    (fun (p, hints) => .object (partFields p ++
      (hints.map fun h => ("hints", hintsJson h)).toList)) r.parts)]

/-! ### Extractions -/

/-- A construct of a file, or why there is none. -/
structure OfExtraction where
  file : String
  name : String
  result : Extraction

/-- The report as text. -/
def OfExtraction.text (r : OfExtraction) : String :=
  match r.result with
  | .found c =>
      s!"// {c.kind.description} {r.name} lines {c.startLine}-{c.endLine} " ++
        s!"chars {c.start}..{c.stop}\n" ++ c.body
  | missing => s!"{r.file}: {r.name} ({missing.failure})"

/-- The report as JSON. -/
def OfExtraction.json (r : OfExtraction) : Json :=
  .object ([("file", .string r.file), ("name", .string r.name)] ++ extractionFields r.result)

/-! ### Searches -/

/-- The hits of a literal in a file. -/
structure OfSearch where
  file : String
  needle : String
  result : Grep.Result

/-- The text of a window under a line that names the hit, ended by a newline. -/
def windowText (needle : String) (w : Grep.Window) : String :=
  s!"--- '{needle}' hit line {w.hitLine} (lines {w.firstLine}-{w.lastLine})\n" ++ w.text ++
    (if w.text.toList.getLast? == some '\n' then "" else "\n")

/-- The report as text. -/
def OfSearch.text (r : OfSearch) : String :=
  String.join (r.result.windows.map (windowText r.needle)) ++
    s!"{r.result.hitCount} hits, showing {r.result.windows.length}"

/-- The report as JSON. -/
def OfSearch.json (r : OfSearch) : Json :=
  .object ([("file", .string r.file), ("needle", .string r.needle)] ++ searchFields r.result)

/-! ### Indexes -/

/-- The index of a file. -/
structure OfIndex where
  file : String
  index : Names.Index

/-- The lines about a list of names; none for an empty list. -/
def nameListLines (label : String) (l : Names.NameList) : List String :=
  if l.items.isEmpty then []
  else
    [s!"{label}:\n"] ++ l.items.toList.map (fun name => s!"  - {name}\n") ++
      (if l.isTruncated then [s!"  ({l.total - l.items.size} more not shown)\n"] else [])

/-- The first line, with all totals. -/
def indexHeader (file : String) (i : Names.Index) : String :=
  s!"{file}: {i.identifiers.total} identifiers | DOM ids: {i.domIds.total} | " ++
    s!"DOM classes: {i.domClasses.total} | DOM names: {i.domNames.total} | " ++
    s!"Selectors: {i.selectors.total} | localStorage keys: {i.localKeys.total} | " ++
    s!"sessionStorage keys: {i.sessionKeys.total}\n"

/-- The line with the most frequent identifiers, if there are any. -/
def topLines (top : List (String × Nat)) : List String :=
  if top.isEmpty then [] else ["top: " ++ rankedText top ++ "\n"]

/-- All lines about an index. -/
def indexLines (file : String) (i : Names.Index) : List String :=
  [indexHeader file i] ++ topLines i.top ++ nameListLines "identifiers" i.identifiers ++
    nameListLines "dom ids" i.domIds ++ nameListLines "dom classes" i.domClasses ++
    nameListLines "dom names" i.domNames ++ nameListLines "selectors" i.selectors ++
    nameListLines "localStorage keys" i.localKeys ++
    nameListLines "sessionStorage keys" i.sessionKeys

/-- The report as text, without blanks at its end. -/
def OfIndex.text (r : OfIndex) : String :=
  String.ofList (trimEnd (String.join (indexLines r.file r.index)).toList)

/-- The report as JSON. -/
def OfIndex.json (r : OfIndex) : Json :=
  .object (("file", .string r.file) :: indexFields r.index)

end Report

end CodeParts
