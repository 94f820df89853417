import CodeParts.Path
import CodeParts.Settings.Error
import CodeParts.Text.Blank

/-!
# How blocks are delimited

Braces delimit the blocks of most languages; indentation delimits those of some. The
dialect of a file follows from the extension of its name.
-/

namespace CodeParts

/-- How the constructs of a text are delimited. -/
inductive Dialect where
  /-- By braces. -/
  | braces
  /-- By indentation. -/
  | indentation
  deriving DecidableEq, Repr

namespace Dialect

/-- The short name of a dialect. -/
def name : Dialect → String
  | .braces => "c-family"
  | .indentation => "indentation"

/-- The dialect of files with an extension; letter case does not matter. -/
def ofExtension (extension : String) : Dialect :=
  if extension.toLower ∈ ["py", "pyw", "pyi"] then .indentation else .braces

/-- The dialect of a file, from its path. -/
def ofPath (path : String) : Dialect :=
  match Path.extension? path with
  | some extension => ofExtension extension
  | none => .braces

/-- The dialect with a name, as a person may type it. -/
def ofName (s : String) : Except SettingsError Dialect :=
  if normalizedName s ∈ ["c-family", "cfamily", "c", "javascript", "js"] then .ok .braces
  else if normalizedName s ∈ ["indentation", "indentation-based", "python", "py"] then
    .ok .indentation
  else .error (.unknownDialect (normalizedName s))

end Dialect

end CodeParts
