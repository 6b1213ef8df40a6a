import InlineMacro.Complaint
import InlineMacro.Host
import InlineMacro.Path
import InlineMacro.Text.Wildcard

/-!
# Patterns of paths

A path in which names may be patterns. Two stars in the place of a name stand for any number of
directories, and nowhere else may more than one star stand together. The paths of a pattern's form are
found from directory to directory, the names in each of them in order.
-/

set_option autoImplicit false

namespace InlineMacro

/-- What is wrong with a pattern. -/
inductive PatternFlaw where
  | tooManyStars
  | starsBesideName
  | invalidSet
deriving DecidableEq, Inhabited, Repr

def PatternFlaw.message : PatternFlaw → String
  | tooManyStars => "wildcards are either regular `*` or recursive `**`"
  | starsBesideName => "recursive wildcards must form a single path component"
  | invalidSet => "invalid range pattern"

/-- A flaw, and the number of the character at which it shows. -/
structure PatternFault where
  position : Nat
  flaw : PatternFlaw
deriving DecidableEq, Inhabited, Repr

def PatternFault.message (fault : PatternFault) : String :=
  "Pattern syntax error near position " ++ toString fault.position ++ ": " ++ fault.flaw.message

/-- What a name in a path has to be: of a form, or there may be any number of directories. -/
inductive PatternPiece where
  | name (items : List Wildcard.Item)
  | anyDirectories
deriving DecidableEq, Inhabited, Repr

namespace PatternPiece

def bare (characters : List Char) : List Wildcard.Character :=
  characters.map fun character => (character, false)

def itemsFrom (position : Nat) (startsName : Bool) :
    Nat → List Char → Except PatternFault (List Wildcard.Item)
  | 0, _ => .ok []
  | _, [] => .ok []
  | budget + 1, '*' :: rest =>
    let others := (rest.takeWhile (· == '*')).length
    if 1 < others then .error ⟨position + 2, .tooManyStars⟩
    else if others = 0 then (itemsFrom (position + 1) false budget rest).map (.anyText :: ·)
    else if !startsName then .error ⟨position - 1, .starsBesideName⟩
    else
      match rest.drop 1 with
      | [] => .ok []
      | '/' :: rest => itemsFrom (position + 3) true budget rest
      | _ => .error ⟨position + 2, .starsBesideName⟩
  | budget + 1, '?' :: rest => (itemsFrom (position + 1) false budget rest).map (.anyCharacter :: ·)
  | budget + 1, '[' :: rest =>
    match Wildcard.set? (bare rest) with
    | none => .error ⟨position, .invalidSet⟩
    | some (item, behind) =>
      let length := 1 + rest.length - behind.length
      (itemsFrom (position + length) false budget (behind.map Prod.fst)).map (item :: ·)
  | budget + 1, character :: rest =>
    (itemsFrom (position + 1) (character == '/') budget rest).map (.literal character :: ·)

def items (pattern : String) : Except PatternFault (List Wildcard.Item) :=
  itemsFrom 0 true pattern.length pattern.toList

def ofName (name : String) : Except PatternFault PatternPiece :=
  if name = "**" then .ok .anyDirectories else (items name).map .name

/-- The pieces of a pattern behind its root. The pattern has to be right as a whole and in each of its
names, which differs if a slash stands in brackets. -/
def ofPattern (pattern : String) : Except PatternFault (List PatternPiece) := do
  let _ ← items pattern
  (Path.pieces pattern).mapM ofName

def literal? : PatternPiece → Option String
  | anyDirectories => none
  | name items =>
    (items.mapM Wildcard.Item.literal?).map String.ofList

def fits (name : String) : PatternPiece → Bool
  | .name items => Wildcard.hasForm items name.toList
  | .anyDirectories => false

/-- The ways to the directory itself and to the one above it that are of the form of a piece. Only a piece
that starts with a dot stands for them. -/
def waysUp (piece : PatternPiece) : List String :=
  match piece with
  | .name (.literal '.' :: _) => ["..", "."].filter fun way => piece.fits way
  | _ => []

end PatternPiece

namespace Path

def isCurrent (path : String) : Bool :=
  !isAbsolute path && (pieces path).head? == some "." &&
    (pieces path).all fun piece => piece.isEmpty || piece == "."

def below (directory name : String) : String :=
  if isCurrent directory then name else join directory name

variable {m : Type → Type} [Monad m] [Host m]

def sortedNames (directory : String) : m (List String) := do
  return (← Host.directoryNames directory).mergeSort (· ≤ ·)

mutual

def leadFrom : Nat → List PatternPiece → String → m (List String)
  | 0, _, _ => pure []
  | _, [], path => pure [path]
  | budget + 1, piece :: pieces, path => do
    match piece.literal? with
    | some name =>
      let next := below path name
      if ← Host.pathExists next then leadFrom budget pieces next else pure []
    | none =>
      let up ← piece.waysUp.mapM fun way => leadFrom budget pieces (join path way)
      let down ← (← sortedNames path).mapM fun name =>
        leadThrough budget (piece :: pieces) (below path name) name
      pure (up.flatten ++ down.flatten)
termination_by structural budget => budget

def leadThrough : Nat → List PatternPiece → String → String → m (List String)
  | 0, _, _, _ => pure []
  | _, [], _, _ => pure []
  | budget + 1, .anyDirectories :: pieces, path, name => do
    let pieces := pieces.dropWhile (· == .anyDirectories)
    let here ← match pieces with
      | [] => do pure (if ← Host.pathExists (join path ".") then [path] else [])
      | _ => leadThrough budget pieces path name
    let down ← (← sortedNames path).mapM fun inner =>
      leadThrough budget (.anyDirectories :: pieces) (join path inner) inner
    pure (here ++ down.flatten)
  | budget + 1, piece :: pieces, path, name =>
    if piece.fits name then leadFrom budget pieces path else pure []
termination_by structural budget => budget

end

def stepBound : Nat := 8192

/-- The paths of the form of a pattern, in order. -/
def matching (pattern : String) : ExceptT Complaint m (List String) := do
  match PatternPiece.ofPattern pattern with
  | .error fault => throw ⟨fault.message, []⟩
  | .ok pieces => leadFrom stepBound pieces (if isAbsolute pattern then "/" else ".")

end Path

end InlineMacro
