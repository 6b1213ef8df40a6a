import InlineMacro.Failure
import InlineMacro.Preprocessor.Linemarker

/-!
# Inclusions

Which lines of a file include which headers. The linemarkers of the preprocessed text tell when a
header is entered straight from the file itself; the line in the file from which it is entered
holds the directive.
-/

set_option autoImplicit false

namespace InlineMacro

/-- A line of the main file that includes a header. -/
structure Inclusion where
  line : Nat
  directive : String
  header : String
deriving DecidableEq, Inhabited, Repr

/-- The state of a walk over preprocessed text: the number of the main file's line that comes next
while the walk is in that file, the lines from which a header was entered, and what was found. Lines
are counted with 64 bits; what lies behind a count that does not fit is never seen. -/
structure InclusionWalk where
  mainLine : Option Nat := none
  entered : List Nat := []
  found : List Inclusion := []
  overflowed : Bool := false
deriving Inhabited, Repr

namespace InclusionWalk

def directive? (lines : List String) (number : Nat) : Option String :=
  match number with
  | 0 => none
  | index + 1 =>
    lines[index]?.filter fun line => (Text.trimStart line.toList).head? == some '#'

def enterHeader (lines : List String) (header : String) (line : Nat) (walk : InclusionWalk) :
    InclusionWalk :=
  if walk.entered.contains line then { walk with mainLine := none }
  else
    { walk with
      mainLine := none
      entered := line :: walk.entered
      found := walk.found ++ ((directive? lines line).map fun directive =>
        Inclusion.mk line (Text.trimmed directive) header).toList }

/-- Takes in a linemarker. A marker that enters a header from another header changes nothing. -/
def marker (mainFile : String) (lines : List String) (walk : InclusionWalk)
    (marker : Linemarker) : InclusionWalk :=
  if marker.file = mainFile then { walk with mainLine := some marker.line }
  else if marker.entersFile then
    match walk.mainLine with
    | some line => walk.enterHeader lines marker.file line
    | none => walk
  else { walk with mainLine := none }

/-- Takes in a line that is no linemarker. -/
def textLine (walk : InclusionWalk) : InclusionWalk :=
  { walk with
    mainLine := walk.mainLine.map (· + 1)
    overflowed := walk.overflowed || walk.mainLine.any (Linemarker.numberBound ≤ · + 1) }

def step (mainFile : String) (lines : List String) (walk : InclusionWalk) (text : String) :
    InclusionWalk :=
  match Linemarker.parse? text with
  | some found => walk.marker mainFile lines found
  | none => walk.textLine

def through (mainFile preprocessed source : String) : InclusionWalk :=
  (Text.lines preprocessed).foldl (step mainFile (Text.lines source)) {}

end InclusionWalk

def inclusions (mainFile preprocessed source : String) : Except Failure (List Inclusion) :=
  let walk := InclusionWalk.through mainFile preprocessed source
  if walk.overflowed then .error .overflow else .ok walk.found

end InlineMacro
