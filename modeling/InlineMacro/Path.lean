import InlineMacro.Text.Lines

/-!
# Paths

Names of files as text: pieces between slashes, of which an empty one and a dot say nothing,
except for a dot at the very start.
-/

set_option autoImplicit false

namespace InlineMacro.Path

def isAbsolute (path : String) : Bool := path.toList.head? == some '/'

def join (directory path : String) : String :=
  if isAbsolute path || directory.isEmpty then path
  else if directory.toList.getLast? == some '/' then directory ++ path
  else directory ++ "/" ++ path

def pieces (path : String) : List String :=
  let characters := if isAbsolute path then path.toList.drop 1 else path.toList
  (Text.splitBy (· == '/') characters).map String.ofList

/-- Without the pieces at the end that say nothing; the pieces stand in reverse. A dot that is the
first piece of a relative path is kept. -/
def significantEnd (isRooted : Bool) : List String → List String
  | [] => []
  | piece :: before =>
    if piece.isEmpty || (piece == "." && (isRooted || !before.isEmpty)) then
      significantEnd isRooted before
    else piece :: before

/-- The last piece that says something, and the pieces before it; both in reverse. -/
def lastPiece? (path : String) : Option (String × List String) :=
  match significantEnd (isAbsolute path) (pieces path).reverse with
  | [] => none
  | piece :: before => some (piece, before)

/-- The directory of a path; none if it has no last piece. -/
def parent? (path : String) : Option String :=
  (lastPiece? path).map fun (_, before) =>
    (if isAbsolute path then "/" else "") ++
      Text.join "/" (significantEnd (isAbsolute path) before).reverse

def fileName? (path : String) : Option String :=
  ((lastPiece? path).map Prod.fst).filter fun piece => piece != ".." && piece != "."

def beforeLastDot (name : String) : String :=
  match name.toList.reverse.dropWhile (· != '.') with
  | '.' :: before => if before.isEmpty then name else String.ofList before.reverse
  | _ => name

def stem? (path : String) : Option String := (fileName? path).map beforeLastDot

end InlineMacro.Path
