import CodeParts.CommandLine.Files
import CodeParts.CommandLine.Invocation

/-!
# What a run reads

A run reads the file of its settings, if it names one, and then its source. The order is
part of the meaning: a source that is the standard input is empty if the settings have been
read from there.
-/

namespace CodeParts.CommandLine

/-- What a run has read, the settings before the source. -/
structure Readings where
  /-- The file of the settings; of no account where no file is named. -/
  settings : Except FileError ByteArray
  source : Except FileError ByteArray

/-- What a run reads among the files of a set and from the standard input. -/
def FileSet.readings (s : FileSet) (input : ByteArray) (inv : Invocation) : Readings :=
  let (settings, left) :=
    match inv.base with
    | .file path => s.take input path
    | _ => (.ok .empty, input)
  { settings
    source := if isInput inv.file then .ok left else (s.take left inv.file).1 }

end CodeParts.CommandLine
