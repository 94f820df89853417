import CodeParts.Path

/-!
# Files and the standard input

`FileSet.find` says what stands at a path for a program that runs in a directory which
holds given files and nothing else, in a system of which only the standard directories and
devices are known. The standard input can be read by the name of a device too; whoever
reads it reads all that is left of it (`FileSet.take`).
-/

namespace CodeParts.CommandLine

/-- Why a file cannot be read. -/
inductive FileError where
  | notFound
  | isDirectory
  /-- A path that goes on after the name of a file. -/
  | notDirectory
  | nameTooLong
  /-- Bytes that are no UTF-8 text. -/
  | notUtf8
  /-- Any other failure of the system, with its number. -/
  | system (description : String) (code : Nat)
  deriving DecidableEq, Repr

/-- An error with the number by which the system knows it. -/
def systemError (description : String) (code : Nat) : String :=
  s!"{description} (os error {code})"

/-- The error in words. -/
def FileError.message : FileError → String
  | .notFound => systemError "No such file or directory" 2
  | .isDirectory => systemError "Is a directory" 21
  | .notDirectory => systemError "Not a directory" 20
  | .nameTooLong => systemError "File name too long" 36
  | .notUtf8 => "stream did not contain valid UTF-8"
  | .system description code => systemError description code

/-- The error that the system knows by a number. -/
def FileError.ofSystem (description : String) (code : Nat) : FileError :=
  if code = 2 then .notFound
  else if code = 20 then .notDirectory
  else if code = 21 then .isDirectory
  else if code = 36 then .nameTooLong
  else .system description code

/-- The path stands for the standard input: a dash, perhaps with slashes after it. -/
def isInput (path : String) : Bool :=
  path.startsWith "-" && Path.components path == ["-"]

/-- The bytes as text. -/
def decodeText (bytes : ByteArray) : Except FileError String :=
  match String.fromUTF8? bytes with
  | some text => .ok text
  | none => .error .notUtf8

/-! ### Sets of files -/

/-- What a file holds. -/
inductive Content where
  | bytes (content : ByteArray)
  /-- Whatever is left of the standard input. -/
  | input

/-- Files by their paths below one directory. -/
structure FileSet where
  files : List (String × ByteArray)

namespace FileSet

/-- Where a path has led so far. -/
inductive Place where
  /-- A directory of the set, by its components. -/
  | directory (components : List String)
  /-- A directory of the system, by its components from the root. -/
  | system (components : List String)
  | file (content : Content)
  /-- A directory above those of the set; nothing is known below it. -/
  | outside

/-- The longest name of a file or directory, in bytes. -/
def maxNameBytes : Nat := 255

/-- The longest path, in bytes. -/
def maxPathBytes : Nat := 4095

/-- What is known of the system besides plain directories, by the components from the
root: an empty device, the standard input under its three names, and names that lead
elsewhere. -/
def landmarks : List (List String × Place) := [
  (["dev", "null"], .file (.bytes ByteArray.empty)), (["dev", "stdin"], .file .input),
  (["dev", "fd"], .system ["proc", "self", "fd"]), (["proc", "self", "fd", "0"], .file .input),
  (["proc", "self", "cwd"], .directory []), (["proc", "self", "root"], .system [])]

/-- The standard directories of the system. -/
def systemDirectories : List (List String) :=
  [["dev", "pts"], ["dev", "shm"], ["proc", "self"], ["proc", "self", "fd"]] ++
    ["bin", "boot", "dev", "etc", "home", "lib", "media", "mnt", "opt", "proc", "root", "run",
      "sbin", "srv", "sys", "tmp", "usr", "var"].map fun name => [name]

/-- The files of the set by the components of their paths. -/
def entries (s : FileSet) : List (List String × Content) :=
  s.files.map fun (path, content) => (Path.components path, .bytes content)

/-- The directory above a place. -/
def Place.parent : Place → Place
  | .directory [] => .outside
  | .directory components => .directory components.dropLast
  | .system components => .system components.dropLast
  | p => p

/-- What stands below the directory of the set: a file, or a directory on the way to one. -/
def entry (s : FileSet) (components : List String) : Except FileError Place :=
  match s.entries.find? (·.1 == components) with
  | some (_, content) => .ok (.file content)
  | none =>
      if s.entries.any fun (path, _) => components.isPrefixOf path then .ok (.directory components)
      else .error .notFound

/-- What stands below the root of the system. -/
def systemEntry (components : List String) : Except FileError Place :=
  match landmarks.lookup components with
  | some place => .ok place
  | none =>
      if components ∈ systemDirectories then .ok (.system components) else .error .notFound

/-- What a name stands for at a place. -/
def child (s : FileSet) (place : Place) (name : String) : Except FileError Place :=
  match place with
  | .directory components => s.entry (components ++ [name])
  | .system components => systemEntry (components ++ [name])
  | _ => .error .notFound

/-- Where one more component of a path leads. An empty one, as between two slashes, and a
dot stay in a directory; two dots go up. -/
def step (s : FileSet) (place : Place) (component : String) : Except FileError Place :=
  match place with
  | .file _ => .error .notDirectory
  | place =>
      if component ∈ ["", "."] then .ok place
      else if component = ".." then .ok place.parent
      else if maxNameBytes < component.utf8ByteSize then .error .nameTooLong
      else s.child place component

/-- Where a path leads, from the directory of the set or, after a slash, from the root. -/
def resolve (s : FileSet) (path : String) : Except FileError Place :=
  if path.isEmpty then .error .notFound
  else if maxPathBytes < path.utf8ByteSize then .error .nameTooLong
  else
    (path.splitOn "/").foldlM s.step (if path.startsWith "/" then .system [] else .directory [])

/-- What the file at a path holds. -/
def find (s : FileSet) (path : String) : Except FileError Content :=
  match s.resolve path with
  | .ok (.file content) => .ok content
  | .ok _ => .error .isDirectory
  | .error e => .error e

/-- The bytes that are read at a path while `input` is left of the standard input, and what
is left of it then. -/
def take (s : FileSet) (input : ByteArray) (path : String) :
    Except FileError ByteArray × ByteArray :=
  match s.find path with
  | .ok (.bytes content) => (.ok content, input)
  | .ok .input => (.ok input, .empty)
  | .error e => (.error e, input)

end FileSet

end CodeParts.CommandLine
