/-!
# Paths

A path is a text of components with slashes between them. Empty components and dots that
stand for the directory itself do not count.
-/

namespace CodeParts.Path

/-- The components of a path. -/
def components (path : String) : List String :=
  (path.splitOn "/").filter fun s => s != "" && s != "."

/-- What follows the last dot of a file name, if something stands before that dot. -/
def extensionOfName? (fileName : String) : Option String :=
  let after := fileName.toList.reverse.takeWhile (· != '.')
  let before := (fileName.toList.reverse.dropWhile (· != '.')).drop 1
  if fileName == ".." || before.isEmpty then none else some (String.ofList after.reverse)

/-- The extension of the last component. -/
def extension? (path : String) : Option String :=
  (components path).getLast?.bind extensionOfName?

end CodeParts.Path
