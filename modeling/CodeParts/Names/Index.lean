import CodeParts.Names.Identifiers

/-!
# The lookup index of a text

The index answers whether a name occurs in a text: as an identifier, as the string
argument of a call that looks up an element, or as a key of the browser's storage. Its
lists are sorted, without repetitions and cut to fixed lengths.
-/

namespace CodeParts.Names

open Pattern Construct

/-! ### Lists of names -/

/-- The first names of a sorted list, and how many there were. -/
structure NameList where
  total : Nat
  items : Array String
  deriving DecidableEq, Repr

namespace NameList

/-- The first `cap` of the different names. -/
def ofNames (names : List String) (cap : Nat) : NameList :=
  ⟨(distinct names).length, ((distinct names).take cap).toArray⟩

/-- Some names did not fit. -/
def isTruncated (l : NameList) : Bool := l.items.size < l.total

/-- The name is one of the items; found by halving, because they are sorted. -/
def contains (l : NameList) (name : String) : Bool :=
  l.items[partitionPoint (fun item => decide (item < name)) l.items]? == some name

end NameList

/-! ### String arguments -/

/-- A single or double quote. -/
def isQuote (c : Char) : Bool := c == '\'' || c == '"'

/-- A quoted string as the first argument of a call; the string is kept. -/
def quotedArgument : Pattern :=
  chain [keyword "(", blanks, one isQuote, group "argument" (several fun c => !isQuote c),
    one isQuote, blanks]

/-- A call with one quoted string as its only argument. -/
def callOf (function : Pattern) : Pattern := chain [function, quotedArgument, keyword ")"]

/-- The arguments kept by a pattern, without those that are blank. -/
def arguments (src : Source) (p : Pattern) : List String :=
  (p.captures src "argument").filter fun s => !allBlank s.toList

/-- The storage areas of a browser. -/
inductive StorageArea where
  | localArea
  | sessionArea
  deriving DecidableEq, Repr

/-- The object that stands for a storage area. -/
def StorageArea.objectName : StorageArea → String
  | .localArea => "localStorage"
  | .sessionArea => "sessionStorage"

/-- A read, removal or write of one key of a storage area; the object is kept too. -/
def storageAccess : Pattern :=
  chain [
    group "object" (alt (keyword StorageArea.localArea.objectName)
      (keyword StorageArea.sessionArea.objectName)),
    keyword ".",
    alt (callOf (alt (keyword "getItem") (keyword "removeItem")))
      (chain [keyword "setItem", quotedArgument, keyword ","])]

/-- The keys of a storage area that a text uses, without those that are blank. -/
def storageKeys (src : Source) (area : StorageArea) : List String :=
  ((storageAccess.allMatches src).filter fun m =>
    m.text? src "object" == some area.objectName).filterMap fun m =>
      (m.text? src "argument").filter fun s => !allBlank s.toList

/-! ### The index -/

/-- Names of a text by what they stand for. -/
structure Index where
  identifiers : NameList
  /-- The most frequent identifiers with their counts. -/
  top : List (String × Nat)
  domIds : NameList
  domClasses : NameList
  domNames : NameList
  selectors : NameList
  localKeys : NameList
  sessionKeys : NameList
  deriving DecidableEq, Repr

/-- The index of a text. -/
def Index.ofSource (src : Source) : Index :=
  let counts := identifierCounts src
  let selectorCall := seq (keyword "querySelector") (optional (keyword "All"))
  { identifiers := .ofNames (counts.map (·.1)) 6000
    top := rank counts 80
    domIds := .ofNames (arguments src (callOf (keyword "getElementById"))) 1500
    domClasses := .ofNames (arguments src (callOf (keyword "getElementsByClassName"))) 1500
    domNames := .ofNames (arguments src (callOf (keyword "getElementsByName"))) 1500
    selectors := .ofNames (arguments src (callOf selectorCall)) 1500
    localKeys := .ofNames (storageKeys src .localArea) 2000
    sessionKeys := .ofNames (storageKeys src .sessionArea) 2000 }

end CodeParts.Names
