import CodeParts.Construct.Extract
import CodeParts.Settings
import CodeParts.Split.Stats

/-!
# Working with one choice of settings

A `Session` holds settings that have passed their check, so none of its operations can be
refused because of them.
-/

namespace CodeParts

/-- Settings that can be used. -/
structure Session where
  settings : Settings
  /-- The settings have passed their check. -/
  check_eq : settings.check = .ok ()

namespace Session

/-- A session with the given settings, unless they cannot be used. -/
def start (settings : Settings) : Except SettingsError Session :=
  match h : settings.check with
  | .ok () => .ok ⟨settings, h⟩
  | .error e => .error e

/-- The boundaries of the parts of a text. -/
def boundaries (s : Session) (src : Source) : List Split.Boundary :=
  Split.boundaries src s.settings.policy

/-- The parts of a text. -/
def split (s : Session) (text : String) : Except SettingsError (List Part) :=
  Split.split text s.settings.policy

/-- What passes the check of settings can cut a text. -/
theorem policy_check_eq (s : Session) : s.settings.policy.check = .ok () := by
  have h := s.check_eq
  simp only [Settings.check] at h
  simp only [Split.Policy.check, Settings.policy]
  split at h <;> try contradiction
  split at h <;> try contradiction
  split at h <;> try contradiction
  simp [*]

/-- A session can split any text. -/
theorem split_eq (s : Session) (text : String) :
    s.split text =
      .ok (Split.assemble (Source.ofString text) (s.boundaries (Source.ofString text))) := by
  simp [split, boundaries, Split.split, s.policy_check_eq]

/-- The hits of a literal in a text. -/
def search (s : Session) (text needle : String) : Except SettingsError Grep.Result :=
  Grep.search text needle s.settings.scope

/-- The figures about parts of a text. -/
def stats (s : Session) (ps : List Part) : Split.Stats :=
  Split.Stats.ofParts ps s.settings.maxChars

end Session

end CodeParts
