import CodeParts.CommandLine.Options

/-!
# What a command line asks for

A command line names one command and the file it is run on. Some options stand before or
after the name of the command alike; where both places give one, the later place wins.
-/

namespace CodeParts.CommandLine

/-- A command by its name. -/
inductive Verb where
  | split
  | extract
  | grep
  | scope
  deriving DecidableEq, Repr

/-- What to do with a file. -/
inductive Command where
  /-- Split it, with hints about each part if wanted. -/
  | split (hints : Bool)
  /-- Extract a construct, in the dialect of the file's extension unless one is given. -/
  | extract (name : String) (dialect : Option Dialect)
  /-- Search it for a literal. -/
  | search (needle : String)
  /-- Index its names. -/
  | index
  deriving DecidableEq, Repr

/-- Where settings come from before values are laid over them. -/
inductive Base where
  | defaults
  | preset (p : Preset)
  | file (path : String)
  deriving DecidableEq, Repr

/-- All that a command line asks for. -/
structure Invocation where
  verbose : Bool
  quiet : Bool
  json : Bool
  base : Base
  overrides : Overrides
  /-- The file as it was given; a lone dash is the standard input. -/
  file : String
  command : Command

/-! ### The options of each place -/

/-- Options that stand before or after the name of the command. -/
def sharedSpecs : List Spec := [
  ⟨"verbose", some 'v', .mark .verbose⟩, ⟨"quiet", none, .mark .quiet⟩,
  ⟨"config", none, .set .config⟩, ⟨"preset", none, .set .preset⟩,
  ⟨"help", some 'h', .stop .help⟩]

/-- Options before the name of the command. -/
def leadingSpecs : List Spec := ⟨"version", some 'V', .stop .version⟩ :: sharedSpecs

/-- Options after the name of a command. -/
def Verb.specs : Verb → List Spec
  | .split => [
      ⟨"max-chars", none, .set .maxChars⟩, ⟨"max-lines", none, .set .maxLines⟩,
      ⟨"strategy", none, .set .strategy⟩, ⟨"grace-ratio", none, .set .graceRatio⟩,
      ⟨"hints", none, .mark .hints⟩, ⟨"json", none, .mark .json⟩] ++ sharedSpecs
  | .extract => [
      ⟨"name", some 'n', .set .name⟩, ⟨"dialect", none, .set .dialect⟩,
      ⟨"json", none, .mark .json⟩] ++ sharedSpecs
  | .grep => [
      ⟨"needle", none, .set .needle⟩, ⟨"context-lines", some 'C', .set .contextLines⟩,
      ⟨"max-matches", some 'm', .set .maxMatches⟩, ⟨"json", none, .mark .json⟩] ++ sharedSpecs
  | .scope => ⟨"json", none, .mark .json⟩ :: sharedSpecs

/-- The command with a name. -/
def Verb.ofName? (s : String) : Option Verb :=
  if s = "split" then some .split
  else if s = "extract" then some .extract
  else if s = "grep" then some .grep
  else if s = "scope" then some .scope
  else none

/-! ### Reading -/

namespace Invocation

/-- The options and the one operand after the name of a command. -/
def readOperand (verb : Verb) (words : List String) : Except Stop (Given × String) :=
  match readOptions verb.specs {} words with
  | .error e => .error e
  | .ok (_, []) => .error .usage
  | .ok (g, w :: words) =>
      if w = "--" then
        match words with
        | [file] => .ok (g, file)
        | _ => .error .usage
      else if w.isEmpty then .error .usage
      else
        match readOptions verb.specs g words with
        | .error e => .error e
        | .ok (g, []) => .ok (g, w)
        | .ok (g, ["--"]) => .ok (g, w)
        | .ok _ => .error .usage

/-- The command that was asked for, unless something it needs is missing. -/
def command? (verb : Verb) (g : Given) : Option Command :=
  match verb with
  | .split => some (.split g.hints)
  | .extract => g.name.map fun name => .extract name g.dialect
  | .grep => g.needle.map .search
  | .scope => some .index

/-- Where settings come from: a file before a preset, and of either the one given after
the name of the command. -/
def baseOf (before after : Given) : Base :=
  match after.config.or before.config, after.preset.or before.preset with
  | some path, _ => .file path
  | none, some p => .preset p
  | none, none => .defaults

/-- What the options before and after the name of a command ask for. -/
def assemble (before after : Given) (file : String) (command : Command) : Invocation where
  verbose := before.verbose || after.verbose
  quiet := before.quiet || after.quiet
  json := after.json
  base := baseOf before after
  overrides := after.overrides
  file := file
  command := command

/-- Words after the request for help on a command: none, or the name of one. -/
def helpOn (words : List String) : Stop :=
  match words with
  | [] => .help
  | [w] => if w = "help" ∨ (Verb.ofName? w).isSome then .help else .usage
  | _ => .usage

/-- What the words of a command line ask for. -/
def ofWords (words : List String) : Except Stop Invocation :=
  match readOptions leadingSpecs {} words with
  | .error e => .error e
  | .ok (_, []) => .error .usage
  | .ok (before, w :: words) =>
      if w = "help" then .error (helpOn words)
      else
        match Verb.ofName? w with
        | none => .error .usage
        | some verb =>
            match readOperand verb words with
            | .error e => .error e
            | .ok (after, file) =>
                match path? file, command? verb after with
                | some file, some command => .ok (assemble before after file command)
                | _, _ => .error .usage

end Invocation

end CodeParts.CommandLine
