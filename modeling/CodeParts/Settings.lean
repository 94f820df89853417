import CodeParts.Grep
import CodeParts.Split.Policy

/-!
# Settings

All settings of a session in one value, with defaults and presets. `Settings.check` gives
the first reason for which they cannot be used; what it accepts no operation refuses.
-/

namespace CodeParts

/-- The settings of splitting and searching. -/
structure Settings where
  /-- Soft limit on the characters of a part. -/
  maxChars : Nat := 60000
  /-- Soft limit on the lines of a part. -/
  maxLines : Nat := 1200
  strategy : Strategy := .strict
  /-- How far the hybrid strategy looks ahead, as a fraction. -/
  graceRatio : Float := 0.3
  /-- Lines shown above and below a hit. -/
  contextLines : Nat := 25
  /-- Hits shown. -/
  maxMatches : Nat := 50

/-- Settings with a name. -/
inductive Preset where
  /-- Limits for pasting whole parts into a chat window. -/
  | chatPaste
  /-- Smaller parts for a short context window. -/
  | smallContext
  /-- Parts that end with an immediately invoked function where one is near. -/
  | constructFirst
  deriving DecidableEq, Repr

namespace Preset

/-- The preset with a name. -/
def ofName? (s : String) : Option Preset :=
  if s = "chat-paste" then some .chatPaste
  else if s = "small-context" then some .smallContext
  else if s = "construct-first" then some .constructFirst
  else none

/-- The settings of a preset. -/
def settings : Preset → Settings
  | .chatPaste => {}
  | .smallContext => { maxChars := 12000, maxLines := 300, contextLines := 10 }
  | .constructFirst => { strategy := .hybrid }

end Preset

namespace Settings

/-- How these settings cut a text. -/
def policy (s : Settings) : Split.Policy :=
  ⟨⟨s.maxChars, s.maxLines⟩, s.strategy, s.graceRatio⟩

/-- How much of a search these settings show. -/
def scope (s : Settings) : Grep.Scope := ⟨s.contextLines, s.maxMatches⟩

/-- The first reason, in a fixed order, for which settings cannot be used. -/
def check (s : Settings) : Except SettingsError Unit :=
  if s.maxChars = 0 then .error .zeroMaxChars
  else if s.maxLines = 0 then .error .zeroMaxLines
  else if s.maxMatches = 0 then .error .zeroMaxMatches
  else Split.checkGraceRatio s.graceRatio

end Settings

end CodeParts
