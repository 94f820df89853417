import CodeParts.Text.Terminal

/-!
# Log lines

A record says how grave a message is and which part of the program it comes from. Records
below a threshold are not shown.
-/

namespace CodeParts.CommandLine

/-- How grave a message is. -/
inductive Level where
  | debug
  | info
  | warn
  deriving DecidableEq, Repr

namespace Level

/-- The place of a level among all levels. -/
def rank : Level → Nat
  | .debug => 0
  | .info => 1
  | .warn => 2

/-- The name of a level, padded to five characters. -/
def label : Level → String
  | .debug => "DEBUG"
  | .info => "INFO "
  | .warn => "WARN "

end Level

/-- The part of the program that a message comes from. -/
inductive Origin where
  | boundary
  | assembly
  | construct
  | search
  | index
  | command
  deriving DecidableEq, Repr

/-- The name under which a part of the program writes messages. -/
def Origin.target : Origin → String
  | .boundary => "context_code_splitter::boundary"
  | .assembly => "context_code_splitter::assembler"
  | .construct => "context_code_splitter::construct"
  | .search => "context_code_splitter::context"
  | .index => "context_code_splitter::scope"
  | .command => "context_split_cli"

/-- A message of the log. -/
structure Record where
  level : Level
  origin : Origin
  message : String
  deriving DecidableEq, Repr

/-- A text whose lines after the first begin with four blanks. -/
def indentTail (s : String) : String := "\n    ".intercalate (s.splitOn "\n")

/-- The line of a record, without terminal control. -/
def Record.line (r : Record) : String :=
  Terminal.withoutControl
    s!"[{r.level.label} {r.origin.target}] {indentTail r.message}\n"

/-- The lines of the records that are at least as grave as a threshold. -/
def logText (threshold : Level) (records : List Record) : String :=
  String.join ((records.filter fun r => threshold.rank ≤ r.level.rank).map Record.line)

end CodeParts.CommandLine
