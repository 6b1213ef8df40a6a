import InlineMacro.Path

/-!
# Files in memory

A tree of files and directories, named by relative paths from the directory at work, with the
answers that a file system gives: a path is followed piece by piece, and every piece but the last
has to be a directory. The directories above hold nothing else, and the root holds nothing but the
null device, which is empty and swallows all.
-/

set_option autoImplicit false

namespace InlineMacro.Machine

/-- Why a request is refused. -/
inductive Refusal where
  | noEntry
  | badFormat
  | denied
  | fileExists
  | notDirectory
  | isDirectory
  | nameTooLong
  | nulCharacter
  | nulArgument
deriving DecidableEq, Inhabited, Repr

namespace Refusal

/-- The description of a refusal, in the words that shells use. -/
def description : Refusal → String
  | noEntry => "No such file or directory"
  | badFormat => "Exec format error"
  | denied => "Permission denied"
  | fileExists => "File exists"
  | notDirectory => "Not a directory"
  | isDirectory => "Is a directory"
  | nameTooLong => "File name too long"
  | nulCharacter => "file name contained an unexpected NUL byte"
  | nulArgument => "nul byte found in provided data"

def number? : Refusal → Option Nat
  | noEntry => some 2
  | badFormat => some 8
  | denied => some 13
  | fileExists => some 17
  | notDirectory => some 20
  | isDirectory => some 21
  | nameTooLong => some 36
  | nulCharacter | nulArgument => none

def text (refusal : Refusal) : String :=
  match refusal.number? with
  | some number => refusal.description ++ " (os error " ++ toString number ++ ")"
  | none => refusal.description

end Refusal

/-- What a path leads to. -/
inductive Entry where
  | directory
  | file (bytes : ByteArray) (isExecutable : Bool)
deriving Inhabited

abbrev Place := List String

/-- The files and directories, each at its place. -/
structure Files where
  entries : List (Place × Entry) := []
deriving Inhabited

namespace Files

def nullDevice : Place := ["/dev/null"]

def root : Place := ["/"]

def isAbove (place : Place) : Bool := place.all (· == "..")

def entry? (files : Files) (place : Place) : Option Entry :=
  if isAbove place || place = root then some .directory
  else if place = nullDevice then some (.file ByteArray.empty false)
  else files.entries.lookup place

def put (files : Files) (place : Place) (entry : Entry) : Files :=
  if place = nullDevice then files
  else ⟨(place, entry) :: files.entries.filter fun other => other.1 != place⟩

def erase (files : Files) (place : Place) : Files :=
  ⟨files.entries.filter fun other => other.1 != place⟩

def nameLimit : Nat := 255

def pathLimit : Nat := 4095

def follow (files : Files) (place : Place) (piece : String) : Except Refusal Place :=
  match files.entry? place with
  | none => .error .noEntry
  | some (.file ..) => .error .notDirectory
  | some .directory =>
    if place = root then if piece = ".." then .ok root else .error .noEntry
    else if piece = ".." then .ok (if isAbove place then place ++ [".."] else place.dropLast)
    else if piece.utf8ByteSize > nameLimit then .error .nameTooLong
    else .ok (place ++ [piece])

/-- Where a path starts, and its pieces. -/
def route (path : String) : Place × List String :=
  let pieces := (Path.pieces path).filter fun piece => piece != "" && piece != "."
  if !Path.isAbsolute path then ([], pieces)
  else if pieces.take 2 = ["dev", "null"] then (nullDevice, pieces.drop 2)
  else (root, pieces)

def endsInDot (path : String) : Bool :=
  ((Path.pieces path).reverse.dropWhile String.isEmpty).head? == some "."

def asksDirectory (path : String) : Bool :=
  match (Path.pieces path).getLast? with
  | some last => last == "" || last == "."
  | none => false

def checkPath (path : String) : Except Refusal Unit :=
  if path.isEmpty then .error .noEntry
  else if path.toList.contains '\x00' then .error .nulCharacter
  else if path.utf8ByteSize > pathLimit then .error .nameTooLong
  else .ok ()

/-- Where a path leads. The place itself may be empty. -/
def locate (files : Files) (path : String) : Except Refusal Place := do
  checkPath path
  let (start, pieces) := route path
  let place ← pieces.foldlM files.follow start
  match files.entry? place with
  | some (.file ..) => if asksDirectory path then .error .notDirectory else .ok place
  | _ => .ok place

def find (files : Files) (path : String) : Except Refusal (Place × Option Entry) := do
  let place ← files.locate path
  pure (place, files.entry? place)

def contains (files : Files) (path : String) : Bool :=
  match files.find path with
  | .ok (_, some _) => true
  | _ => false

def hasDirectory (files : Files) (path : String) : Bool :=
  match files.find path with
  | .ok (_, some .directory) => true
  | _ => false

def hasFile (files : Files) (path : String) : Bool :=
  match files.find path with
  | .ok (_, some (.file ..)) => true
  | _ => false

def read (files : Files) (path : String) : Except Refusal ByteArray := do
  match ← files.find path with
  | (_, some (.file bytes _)) => .ok bytes
  | (_, some .directory) => .error .isDirectory
  | (_, none) => .error .noEntry

/-- Writes a file anew; an executable one stays so. -/
def write (files : Files) (path : String) (bytes : ByteArray) : Except Refusal Files := do
  match ← files.find path with
  | (place, some (.file _ isExecutable)) => .ok (files.put place (.file bytes isExecutable))
  | (_, some .directory) => .error .isDirectory
  | (place, none) =>
    if endsInDot path then .error .noEntry
    else if asksDirectory path then .error .isDirectory
    else .ok (files.put place (.file bytes false))

/-- Makes a file executable, or takes that away. -/
def setExecutable (files : Files) (path : String) (isExecutable : Bool) : Except Refusal Files := do
  match ← files.find path with
  | (place, some (.file bytes _)) => .ok (files.put place (.file bytes isExecutable))
  | (_, some .directory) => .ok files
  | (_, none) => .error .noEntry

def remove (files : Files) (path : String) : Except Refusal Files := do
  match ← files.find path with
  | (place, some (.file ..)) => .ok (files.erase place)
  | (_, some .directory) => .error .isDirectory
  | (_, none) => .error .noEntry

def createAlong (files : Files) (place : Place) : List String → Except Refusal Unit × Files
  | [] =>
    match files.entry? place with
    | some .directory => (.ok (), files)
    | some (.file ..) => (.error .fileExists, files)
    | none => (.error .noEntry, files)
  | piece :: pieces =>
    match files.follow place piece with
    | .error refusal => (.error refusal, files)
    | .ok next =>
      match files.entry? next with
      | none => createAlong (files.put next .directory) next pieces
      | some _ => createAlong files next pieces

/-- Makes a directory and those it lies in. If the path ends in a dot, the directory itself has to
be there already. -/
def createDirectories (files : Files) (path : String) : Except Refusal Unit × Files :=
  if path.isEmpty then (.ok (), files)
  else
    match checkPath path with
    | .error refusal => (.error refusal, files)
    | .ok () =>
      let (start, pieces) := route path
      if !endsInDot path then files.createAlong start pieces
      else
        match files.find path with
        | .ok (_, some _) => (.ok (), files)
        | .ok (_, none) | .error .noEntry =>
          match files.createAlong start pieces.dropLast with
          | (.ok (), files) => (.error .noEntry, files)
          | refused => refused
        | .error refusal => (.error refusal, files)

/-- Puts a file at a path, with the directories it lies in. What is no path is left out. -/
def provide (files : Files) (path : String) (bytes : ByteArray) (isExecutable : Bool) : Files :=
  let files := match Path.parent? path with
    | some parent => (files.createDirectories parent).2
    | none => files
  match files.locate path with
  | .ok place => files.put place (.file bytes isExecutable)
  | .error _ => files

/-- The names in a directory; none if it is no directory. -/
def names (files : Files) (path : String) : List String :=
  match files.find path with
  | .ok (place, some .directory) =>
    files.entries.filterMap fun (inner, _) =>
      if inner.dropLast = place then inner.getLast? else none
  | _ => []

def under (files : Files) (place : Place) : List (String × ByteArray) :=
  files.entries.filterMap fun (inner, entry) =>
    match entry with
    | .file bytes _ =>
      if inner.take place.length = place then
        some (Text.join "/" (inner.drop place.length), bytes)
      else none
    | .directory => none

end Files

end InlineMacro.Machine
