import CodeParts.Decimal.Layout

/-!
# What can be wrong with settings

Every error of this library is a setting that cannot be used; a construct or a literal
that is not there is a normal result.
-/

namespace CodeParts

/-- Why settings are refused. -/
inductive SettingsError where
  /-- Parts of no characters. -/
  | zeroMaxChars
  /-- Parts of no lines. -/
  | zeroMaxLines
  /-- No windows at all. -/
  | zeroMaxMatches
  /-- A grace ratio that is negative or not finite. -/
  | graceRatio (ratio : Float)
  /-- A name that no strategy has. -/
  | unknownStrategy (name : String)
  /-- A name that no dialect has. -/
  | unknownDialect (name : String)

namespace SettingsError

/-- The cause in words. -/
def cause : SettingsError → String
  | .zeroMaxChars => "max_chars must be > 0"
  | .zeroMaxLines => "max_lines must be > 0"
  | .zeroMaxMatches => "max_matches must be > 0"
  | .graceRatio ratio =>
      "grace_ratio must be a finite number >= 0 (got " ++ Decimal.plain ratio ++ ")"
  | .unknownStrategy name => "unknown boundary strategy '" ++ name ++ "'"
  | .unknownDialect name => "unknown dialect '" ++ name ++ "'"

/-- The message shown to a user. -/
def message (e : SettingsError) : String := "Invalid configuration: " ++ e.cause

end SettingsError

end CodeParts
