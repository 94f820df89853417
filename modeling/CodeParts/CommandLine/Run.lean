import CodeParts.CommandLine.Readings
import CodeParts.CommandLine.Trace
import CodeParts.Report
import CodeParts.Session
import CodeParts.Settings.Read

/-!
# Running a command line

`Invocation.run` gives the exit code and the two outputs of a command line as a function of
what has been read. Settings come first: those of a file or a preset, with the values of the command
line laid over them; only what results is checked. A construct or literal that is not
there is no failure.
-/

namespace CodeParts.CommandLine

/-- What a run leaves. -/
structure Outcome where
  code : Nat
  /-- The standard output. -/
  output : String
  /-- The standard error output. -/
  log : String
  deriving DecidableEq, Repr

/-! ### Failures -/

/-- Why a run fails although its command line makes sense. -/
inductive Failure where
  | unreadableConfig (path : String) (e : FileError)
  | invalidConfig (path : String) (e : Settings.ReadError)
  | invalidSettings (command : Command) (e : SettingsError)
  | unreadableSource (path : String) (e : FileError)

namespace Failure

/-- What failed. -/
def headline : Failure → String
  | .unreadableConfig path _ => "Failed to read config " ++ path
  | .invalidConfig path _ => "Invalid config " ++ path
  | .invalidSettings (.split _) _ => "Invalid split settings"
  | .invalidSettings (.search _) _ => "Invalid grep settings"
  | .invalidSettings _ _ => "Invalid settings"
  | .unreadableSource path _ =>
      if isInput path then "Failed to read source from stdin" else "Failed to read " ++ path

/-- Why it failed. -/
def cause : Failure → String
  | .unreadableConfig _ e => e.message
  | .invalidConfig _ e => e.message
  | .invalidSettings _ e => e.message
  | .unreadableSource _ e => e.message

/-- The failure as it is shown. -/
def text (f : Failure) : String :=
  s!"Error: {f.headline}\n\nCaused by:\n    {indentTail f.cause}\n"

end Failure

/-! ### Commands -/

/-- The name under which a file is shown. -/
def shownName (path : String) : String := if isInput path then "<stdin>" else path

/-- A result with the records that lead to it. -/
structure Logged where
  records : List Record
  output : String

/-- A report as text or as JSON. -/
def rendered (asJson : Bool) (text : String) (json : Json) : String :=
  if asJson then json.pretty else text

namespace Invocation

/-- The settings before values are laid over them. -/
def baseSettings (inv : Invocation) (r : Readings) : Except Failure Settings :=
  match inv.base with
  | .defaults => .ok {}
  | .preset p => .ok p.settings
  | .file path =>
      match r.settings with
      | .error e => .error (.unreadableConfig path e)
      | .ok bytes => (Settings.ofBytes bytes).mapError (.invalidConfig path)

/-- The record of settings that come from a file. -/
def baseRecords (inv : Invocation) : List Record :=
  match inv.base with
  | .file path => [⟨.debug, .command, s!"Loaded config from {path}"⟩]
  | _ => []

/-- A session with the settings of the command line. -/
def session (inv : Invocation) (base : Settings) : Except Failure Session :=
  (Session.start (inv.overrides.apply base)).mapError (.invalidSettings inv.command)

/-- The text of the source. -/
def source (inv : Invocation) (r : Readings) : Except Failure String :=
  (r.source.bind decodeText).mapError (.unreadableSource inv.file)

/-- Splits a text. -/
def runSplit (inv : Invocation) (session : Session) (hints : Bool) (text : String) : Logged :=
  let src := Source.ofString text
  let boundaries := session.boundaries src
  let parts := Split.assemble src boundaries
  let stats := session.stats parts
  let report : Report.OfSplit := {
    file := shownName inv.file, strategy := session.settings.strategy, stats
    parts := parts.map fun p => (p, if hints then some (Names.hints p.text) else none) }
  let summary : Record :=
    ⟨.info, .command, s!"{shownName inv.file}: {stats.summary}"⟩
  let oversized : Record :=
    ⟨.warn, .command, s!"{stats.oversized} part(s) exceed " ++
      s!"max_chars={session.settings.maxChars} to end on a construct"⟩
  { records := splitRecords src session.settings.strategy boundaries ++ [summary] ++
      (if 0 < stats.oversized then [oversized] else [])
    output := rendered inv.json report.text report.json }

/-- Extracts a construct from a text. -/
def runExtract (inv : Invocation) (name : String) (dialect : Option Dialect)
    (text : String) : Logged :=
  let dialect := dialect.getD (Dialect.ofPath inv.file)
  let result := extract text name dialect
  let report : Report.OfExtraction := ⟨shownName inv.file, name, result⟩
  let missing : Record :=
    ⟨.warn, .command, s!"{name} not extracted from {shownName inv.file} ({dialect.name})"⟩
  { records := extractionRecord name result ::
      (if result.construct?.isSome then [] else [missing])
    output := rendered inv.json report.text report.json }

/-- Searches a text for a literal. -/
def runSearch (inv : Invocation) (session : Session) (needle text : String) :
    Except SettingsError Logged := do
  let result ← session.search text needle
  let report : Report.OfSearch := ⟨shownName inv.file, needle, result⟩
  let truncated : Record :=
    ⟨.info, .command,
      s!"{result.hitCount} hits for '{needle}'; showing first {result.windows.length}"⟩
  return {
    records := searchRecords needle result ++ (if result.isTruncated then [truncated] else [])
    output := rendered inv.json report.text report.json }

/-- Indexes the names of a text. -/
def runIndex (inv : Invocation) (text : String) : Logged :=
  let index := Names.Index.ofSource (Source.ofString text)
  let report : Report.OfIndex := ⟨shownName inv.file, index⟩
  let summary : Record :=
    ⟨.info, .command, s!"{shownName inv.file}: {index.identifiers.total} identifiers, " ++
      s!"{index.selectors.total} selectors"⟩
  { records := [indexRecord index, summary]
    output := rendered inv.json report.text report.json }

/-- Runs the command with settings that are still to be completed and checked; an index
needs none. -/
def runCommand (inv : Invocation) (base : Settings) (r : Readings) : Except Failure Logged := do
  match inv.command with
  | .split hints =>
      let session ← inv.session base
      let text ← inv.source r
      return inv.runSplit session hints text
  | .extract name dialect =>
      let _ ← inv.session base
      let text ← inv.source r
      return inv.runExtract name dialect text
  | .search needle =>
      let session ← inv.session base
      let text ← inv.source r
      (inv.runSearch session needle text).mapError (.invalidSettings inv.command)
  | .index =>
      let text ← inv.source r
      return inv.runIndex text

/-- The level from which on messages are shown. Reports in JSON are quiet. -/
def threshold (inv : Invocation) : Level :=
  if inv.quiet || inv.json then .warn else if inv.verbose then .debug else .info

/-- The outcome of records and what they lead to. -/
def outcome (inv : Invocation) (before : List Record) (r : Except Failure Logged) : Outcome :=
  match r with
  | .ok logged =>
      ⟨0, logged.output ++ "\n", logText inv.threshold (before ++ logged.records)⟩
  | .error e => ⟨1, "", logText inv.threshold before ++ e.text⟩

/-- Runs what a command line asks for. -/
def run (inv : Invocation) (r : Readings) : Outcome :=
  match inv.baseSettings r with
  | .ok base => inv.outcome inv.baseRecords (inv.runCommand base r)
  | .error e => inv.outcome [] (.error e)

end Invocation

/-! ### Command lines -/

/-- The name and version of the program. -/
def versionText : String := "context-split 0.1.1\n"

/-- How the program is used. -/
def helpText : String :=
  "Split large source files into paste-ready parts\n\n" ++
  "Usage: context-split [OPTIONS] <COMMAND>\n\n" ++
  "Commands:\n" ++
  "  split    Split a file into newline-aligned parts\n" ++
  "  extract  Extract a named function or class verbatim\n" ++
  "  grep     Show the lines around each literal occurrence of a string\n" ++
  "  scope    Index identifiers, DOM ids, selectors and storage keys of a whole file\n" ++
  "  help     Show this text\n\n" ++
  "Options:\n" ++
  "  -v, --verbose          Log how each result was found\n" ++
  "      --quiet            Log only warnings and errors\n" ++
  "      --config <FILE>    Settings from a JSON or TOML file\n" ++
  "      --preset <PRESET>  chat-paste, small-context or construct-first\n" ++
  "  -h, --help             Show this text\n" ++
  "  -V, --version          Show the version\n"

/-- What a command line that gives nothing to run leaves. -/
def Stop.outcome : Stop → Outcome
  | .usage => ⟨2, "", "error: invalid command line\n\nFor more information, try '--help'.\n"⟩
  | .help => ⟨0, helpText, ""⟩
  | .version => ⟨0, versionText, ""⟩

/-- Runs the words of a command line in a directory with given files. -/
def runIn (s : FileSet) (input : ByteArray) (words : List String) : Outcome :=
  match Invocation.ofWords words with
  | .ok inv => inv.run (s.readings input inv)
  | .error stop => stop.outcome

end CodeParts.CommandLine
