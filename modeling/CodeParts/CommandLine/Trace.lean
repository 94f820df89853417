import CodeParts.CommandLine.Log
import CodeParts.Construct.Extract
import CodeParts.Grep
import CodeParts.Names.Index
import CodeParts.Split.Stats

/-!
# What operations leave in the log

Each operation of the library has its records, as a function of what it was given and what
it found. A cut in the middle of nowhere is worth a warning; all else is for those who look
for the reason of a cut or of a missing construct.
-/

namespace CodeParts.CommandLine

/-- A rule for cuts as the log names it. -/
def reasonLabel : Split.CutReason → String
  | .endOfText => "EndOfText"
  | .depthZeroNewline => "DepthZeroNewline"
  | .closingToken => "ClosingToken"
  | .iifeTerminator => "IifeTerminator"
  | .lastNewline => "LastNewline"
  | .hardCut => "HardCut"

/-- How a boundary was found. -/
def boundaryRecord (strategy : Strategy) (b : Split.Boundary) : Record :=
  ⟨.debug, .boundary,
    s!"boundary[{strategy.name}] start={b.start} tentative={b.tentative} " ++
      s!"candidate={b.candidate.offset} cut={b.cut} via {reasonLabel b.reason}"⟩

/-- The records of one boundary. -/
def boundaryRecords (strategy : Strategy) (b : Split.Boundary) : List Record :=
  (if b.reason = .hardCut then
    [⟨.warn, .boundary,
      s!"no usable boundary in {b.start}..{b.tentative}; cutting at end of line ({b.cut})"⟩]
  else []) ++ [boundaryRecord strategy b]

/-- The records of a split at given boundaries; none for an empty text. -/
def splitRecords (src : Source) (strategy : Strategy) (bs : List Split.Boundary) : List Record :=
  if src.isEmpty then []
  else
    bs.flatMap (boundaryRecords strategy) ++
      [⟨.debug, .assembly,
        s!"split {src.size} chars into {bs.length} chunks ({strategy.name})"⟩]

/-- The outcome of an extraction in words. -/
def extractionMessage (name : String) (e : Extraction) : String :=
  if name.isEmpty then "construct extraction skipped: empty name"
  else
    match e with
    | .found c => s!"extracted {name} ({c.kind.description}) at chars {c.start}..{c.stop}"
    | missing => s!"construct {name} not extracted: {missing.failure}"

/-- The record of an extraction, under the name without blanks around it. -/
def extractionRecord (name : String) (e : Extraction) : Record :=
  ⟨.debug, .construct, extractionMessage (String.ofList (trim name.toList)) e⟩

/-- The record of a search that shows only some of its hits. -/
def searchRecords (needle : String) (r : Grep.Result) : List Record :=
  if r.isTruncated then
    [⟨.debug, .search, s!"'{needle}': {r.hitCount} hits, returning first {r.windows.length}"⟩]
  else []

/-- The record of an index. -/
def indexRecord (i : Names.Index) : Record :=
  ⟨.debug, .index,
    s!"scope index: {i.identifiers.total} identifiers, {i.domIds.total} dom ids, " ++
      s!"{i.selectors.total} selectors, {i.localKeys.total + i.sessionKeys.total} storage keys"⟩

end CodeParts.CommandLine
