import CodeParts.Construct.Signature

/-!
# Constructs delimited by indentation

The construct begins with its header line and takes every following line that is blank
or indented more deeply than the header.
-/

namespace CodeParts.Construct

open Pattern

/-- How many columns a tab counts for. -/
def tabWidth : Nat := 4

/-- The columns of the spaces and tabs at the start of a line. -/
def indentWidth : List Char → Nat
  | ' ' :: cs => indentWidth cs + 1
  | '\t' :: cs => indentWidth cs + tabWidth
  | _ => 0

/-- A header line for `name` that begins with the given words. -/
def header (words : Pattern) (name : List Char) : Pattern :=
  chain [all isIndent, words, gap, literal name, wordEdge]

/-- The headers of the kinds of definition. -/
def headers (name : List Char) : List (Kind × Pattern) := [
  (.asyncDefinition, header (chain [keyword "async", gap, keyword "def"]) name),
  (.definition, header (keyword "def") name),
  (.classDeclaration, header (keyword "class") name)]

/-- The kind of the first of several headers with which a line begins, if there is one. -/
def headerKind (forms : List (Kind × Pattern)) (line : List Char) : Option Kind :=
  let src := Source.ofList line
  forms.findSome? fun (kind, p) => (p.matchAt src 0).map fun _ => kind

/-- A line that continues a block whose header is indented by `width`. -/
def continues (width : Nat) (line : List Char) : Bool :=
  allBlank line || width < indentWidth line

/-- The construct whose header line is the first that begins a definition of `name`. -/
def indentedBlock (src : Source) (name : List Char) : Extraction :=
  let forms := headers name
  let lines := src.lines
  let before := lines.takeWhile fun l => (headerKind forms l).isNone
  match lines.drop before.length with
  | [] => .notFound
  | line :: following =>
      match headerKind forms line with
      | none => .notFound
      | some kind =>
          let block := line :: following.takeWhile (continues (indentWidth line))
          let start := before.flatten.length
          .found
            { kind, start
              stop := start + block.flatten.length
              body := String.ofList block.flatten
              startLine := before.length + 1
              endLine := before.length + block.length }

/-- The space that the headers take but for the name: 69 states with 148 bytes of ranges and
ways out, and one state more. States that read the ends of blanks are shared by means of a hash
table that keeps one of those that meet in an entry. Where they meet depends on the length of
the name, and for names of 327606 bytes, the only length for which 32 bytes decide, one state is
lost there and built again. -/
def headerSpace : Nat := 2356 + stateSpace

/-- The construct called `name` in a text whose blocks are delimited by indentation. -/
def extractIndented (src : Source) (name : List Char) : Extraction :=
  if hasRoom headerSpace name then indentedBlock src name else .notFound

end CodeParts.Construct
