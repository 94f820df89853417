import CodeParts.CommandLine.Word
import CodeParts.Decimal.Read
import CodeParts.Dialect
import CodeParts.Settings

/-!
# Options of a command line

An option is a flag or a field with a value, and each may be given once. The value is
read as soon as it is met, so the first word that makes no sense is the one that ends the
reading. `readOptions` reads options up to the first word that is none.
-/

namespace CodeParts.CommandLine

/-- Why the words of a command line give nothing to run. -/
inductive Stop where
  /-- They make no sense. -/
  | usage
  /-- They ask for help. -/
  | help
  /-- They ask for the version. -/
  | version
  deriving DecidableEq, Repr

/-- An option without a value. -/
inductive Flag where
  | verbose
  | quiet
  | hints
  | json
  deriving DecidableEq, Repr

/-- An option with a value. -/
inductive Field where
  | config
  | preset
  | maxChars
  | maxLines
  | strategy
  | graceRatio
  | contextLines
  | maxMatches
  | name
  | dialect
  | needle
  deriving DecidableEq, Repr

/-- What an option does. -/
inductive Action where
  | mark (f : Flag)
  | set (f : Field)
  | stop (s : Stop)
  deriving DecidableEq, Repr

/-- An option with its names. -/
structure Spec where
  long : String
  letter : Option Char
  action : Action
  deriving DecidableEq, Repr

/-! ### What has been given -/

/-- Values laid over settings. -/
structure Overrides where
  maxChars : Option Nat := none
  maxLines : Option Nat := none
  strategy : Option Strategy := none
  graceRatio : Option Float := none
  contextLines : Option Nat := none
  maxMatches : Option Nat := none

/-- The settings with the given values in place of their own. -/
def Overrides.apply (o : Overrides) (s : Settings) : Settings where
  maxChars := o.maxChars.getD s.maxChars
  maxLines := o.maxLines.getD s.maxLines
  strategy := o.strategy.getD s.strategy
  graceRatio := o.graceRatio.getD s.graceRatio
  contextLines := o.contextLines.getD s.contextLines
  maxMatches := o.maxMatches.getD s.maxMatches

/-- The options given so far. -/
structure Given where
  verbose : Bool := false
  quiet : Bool := false
  hints : Bool := false
  json : Bool := false
  config : Option String := none
  preset : Option Preset := none
  overrides : Overrides := {}
  name : Option String := none
  dialect : Option Dialect := none
  needle : Option String := none

/-! ### Values -/

/-- A path, which is not empty. -/
def path? (s : String) : Option String := if s.isEmpty then none else some s

/-- A natural number of 64 bits in digits, perhaps after a plus. -/
def natural? (s : String) : Option Nat :=
  let ds := match s.toList with
    | '+' :: ds => ds
    | ds => ds
  let n := Digits.valueUpTo 10 (Nat.pow 2 64) ds
  if ds.isEmpty ∨ !ds.all Char.isDigit then none
  else if n < Nat.pow 2 64 then some n else none

/-- The value of an option that was not given before. -/
def once {α : Type} (before value : Option α) : Except Stop (Option α) :=
  match before, value with
  | none, some v => .ok (some v)
  | _, _ => .error .usage

/-- What has been given, with a flag. -/
def Given.mark (g : Given) (f : Flag) : Except Stop Given :=
  match f with
  | .verbose => if g.verbose then .error .usage else .ok { g with verbose := true }
  | .quiet => if g.quiet then .error .usage else .ok { g with quiet := true }
  | .hints => if g.hints then .error .usage else .ok { g with hints := true }
  | .json => if g.json then .error .usage else .ok { g with json := true }

/-- What has been given, with a value for a field. -/
def Given.set (g : Given) (f : Field) (s : String) : Except Stop Given :=
  let o := g.overrides
  match f with
  | .config => (once g.config (path? s)).map fun v => { g with config := v }
  | .preset => (once g.preset (Preset.ofName? s)).map fun v => { g with preset := v }
  | .maxChars =>
      (once o.maxChars (natural? s)).map fun v => { g with overrides := { o with maxChars := v } }
  | .maxLines =>
      (once o.maxLines (natural? s)).map fun v => { g with overrides := { o with maxLines := v } }
  | .strategy =>
      (once o.strategy (Strategy.ofName s).toOption).map fun v =>
        { g with overrides := { o with strategy := v } }
  | .graceRatio =>
      (once o.graceRatio (Decimal.read? s)).map fun v =>
        { g with overrides := { o with graceRatio := v } }
  | .contextLines =>
      (once o.contextLines (natural? s)).map fun v =>
        { g with overrides := { o with contextLines := v } }
  | .maxMatches =>
      (once o.maxMatches (natural? s)).map fun v =>
        { g with overrides := { o with maxMatches := v } }
  | .name => (once g.name (some s)).map fun v => { g with name := v }
  | .dialect => (once g.dialect (Dialect.ofName s).toOption).map fun v => { g with dialect := v }
  | .needle => (once g.needle (some s)).map fun v => { g with needle := v }

/-! ### Reading -/

/-- What the option with a long name does. -/
def actionOfName? (specs : List Spec) (name : String) : Option Action :=
  (specs.find? (·.long == name)).map (·.action)

/-- What the option with a letter does. -/
def actionOfLetter? (specs : List Spec) (c : Char) : Option Action :=
  (specs.find? (·.letter == some c)).map (·.action)

/-- What options by their letters give. A field takes the rest of its word as its value,
without an equals sign in front, and waits for the next word if nothing is left. -/
def readLetters (specs : List Spec) : (g : Given) → (cs : List Char) →
    Except Stop (Given × Option Field)
  | g, [] => .ok (g, none)
  | g, c :: cs =>
      match actionOfLetter? specs c with
      | some (.mark f) =>
          match g.mark f with
          | .ok g => readLetters specs g cs
          | .error e => .error e
      | some (.set f) =>
          match cs with
          | [] => .ok (g, some f)
          | '=' :: cs => (g.set f (String.ofList cs)).map (·, none)
          | cs => (g.set f (String.ofList cs)).map (·, none)
      | some (.stop s) => .error s
      | none => .error .usage

/-- What an option by its long name gives. A field without a value waits for the next
word. -/
def readLong (specs : List Spec) (g : Given) (name : String) (value : Option String) :
    Except Stop (Given × Option Field) :=
  match actionOfName? specs name, value with
  | some (.mark f), none => (g.mark f).map (·, none)
  | some (.set f), some v => (g.set f v).map (·, none)
  | some (.set f), none => .ok (g, some f)
  | some (.stop s), none => .error s
  | _, _ => .error .usage

/-- What a word gives if it is an option, and the field that waits for a value; nothing
for the separator and for an operand. -/
def readOption? (specs : List Spec) (g : Given) (w : String) :
    Option (Except Stop (Given × Option Field)) :=
  match Word.ofString w with
  | .long name value => some (readLong specs g name value)
  | .letters cs => some (readLetters specs g cs)
  | .separator => none
  | .operand _ => none

/-- What the options at the front of the words give, and the words from the first that is
no option. The value of a field may be any operand. -/
def readOptions (specs : List Spec) : (g : Given) → (words : List String) →
    Except Stop (Given × List String)
  | g, [] => .ok (g, [])
  | g, w :: words =>
      match readOption? specs g w with
      | none => .ok (g, w :: words)
      | some (.error e) => .error e
      | some (.ok (g, none)) => readOptions specs g words
      | some (.ok (g, some f)) =>
          match words with
          | [] => .error .usage
          | v :: words =>
              if (Word.ofString v).isOperand then
                match g.set f v with
                | .ok g => readOptions specs g words
                | .error e => .error e
              else .error .usage

end CodeParts.CommandLine
