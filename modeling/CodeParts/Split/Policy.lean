import CodeParts.Settings.Error
import CodeParts.Text.Blank

/-!
# How a text is to be cut

A `Policy` holds the limits on the size of a part, the strategy that looks for a good
place to end one, and how far past the limits one strategy may look.
-/

namespace CodeParts

/-- Where to look for the end of a part once it has reached its limits. -/
inductive Strategy where
  /-- Within the limits only: a line end outside all braces, then the end of a block,
  then any line end. -/
  | strict
  /-- Forward to the end of the next immediately invoked function, however far. -/
  | constructPriority
  /-- As `constructPriority`, but only for a grace distance. -/
  | hybrid
  deriving DecidableEq, Repr

namespace Strategy

/-- The name of a strategy. -/
def name : Strategy → String
  | .strict => "strict"
  | .constructPriority => "construct-priority"
  | .hybrid => "hybrid"

/-- The strategy with a name or a one-letter name, as a person may type it. -/
def ofName (s : String) : Except SettingsError Strategy :=
  if normalizedName s ∈ ["strict", "c"] then .ok .strict
  else if normalizedName s ∈ ["construct-priority", "construct_priority", "a"] then
    .ok .constructPriority
  else if normalizedName s ∈ ["hybrid", "b"] then .ok .hybrid
  else .error (.unknownStrategy (normalizedName s))

end Strategy

namespace Split

/-- Soft limits on the size of one part. -/
structure Limits where
  maxChars : Nat
  maxLines : Nat
  deriving DecidableEq, Repr

/-- How a text is to be cut. -/
structure Policy where
  limits : Limits
  strategy : Strategy
  /-- How far the hybrid strategy looks ahead, as a fraction of the offset at which
  the limits are reached. -/
  graceRatio : Float

/-- A grace ratio is a finite number that is not negative. -/
def checkGraceRatio (ratio : Float) : Except SettingsError Unit :=
  if ratio.isFinite && !(ratio < 0.0) then .ok () else .error (.graceRatio ratio)

/-- The first reason, in a fixed order, for which a text cannot be cut by a policy. -/
def Policy.check (p : Policy) : Except SettingsError Unit :=
  if p.limits.maxChars = 0 then .error .zeroMaxChars
  else if p.limits.maxLines = 0 then .error .zeroMaxLines
  else checkGraceRatio p.graceRatio

/-- How far past `tentative` the hybrid strategy looks: that fraction of it, rounded
down; nowhere if the ratio is not a positive number. -/
def graceDistance (tentative : Nat) (ratio : Float) : Nat :=
  if ratio.isFinite && 0.0 < ratio then (Float.ofNat tentative * ratio).toUInt64.toNat else 0

end Split

end CodeParts
