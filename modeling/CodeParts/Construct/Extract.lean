import CodeParts.Construct.Braced
import CodeParts.Construct.Indented
import CodeParts.Dialect

/-!
# Extracting a construct by name

Blanks around the name do not count, and nothing declares the empty name.
-/

namespace CodeParts

/-- The construct called `name`. -/
def extract (text name : String) (dialect : Dialect) : Extraction :=
  let name := trim name.toList
  if name.isEmpty then .notFound
  else
    match dialect with
    | .braces => Construct.extractBraced (Source.ofString text) name
    | .indentation => Construct.extractIndented (Source.ofString text) name

end CodeParts
