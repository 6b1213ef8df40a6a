import InlineMacro.Text.Utf8

/-!
# The host

What a program asks of the system it runs on: files, other programs, a clock and two streams. The
programs of this library are written for any host, so that they can be run on a made-up one as well.
A request that fails is answered by the reason in words.
-/

set_option autoImplicit false

namespace InlineMacro

/-- Another program, to be run. Without an input it has nothing to read; with a limit it may take so
many seconds. -/
structure Launch where
  program : String
  arguments : List String
  input : Option String := none
  limit : Option Nat := none
deriving DecidableEq, Inhabited, Repr

/-- How a program ended. -/
inductive Ending where
  | status (code : Int)
  | signal
  | timeout
deriving DecidableEq, Inhabited, Repr

def Ending.status? : Ending → Option Int
  | status code => some code
  | signal | timeout => none

/-- How a program ended and what it wrote. -/
structure ProgramResult where
  ending : Ending
  output : ByteArray := ByteArray.empty
  errors : ByteArray := ByteArray.empty
deriving Inhabited

namespace ProgramResult

def isSuccess (result : ProgramResult) : Bool := result.ending == .status 0

def outputText (result : ProgramResult) : String := Text.Utf8.decode result.output

def errorText (result : ProgramResult) : String := Text.Utf8.decode result.errors

end ProgramResult

/-- A system to run on. -/
class Host (m : Type → Type) where
  /-- The bytes of a file. -/
  readFile : String → m (Except String ByteArray)
  /-- Writes a file anew. -/
  writeFile : String → String → m (Except String Unit)
  /-- Removes a file. -/
  removeFile : String → m (Except String Unit)
  /-- Makes a directory and those it lies in. -/
  createDirectories : String → m (Except String Unit)
  /-- Whether a path leads to anything. -/
  pathExists : String → m Bool
  /-- The names in a directory, in any order; none if it cannot be read. -/
  directoryNames : String → m (List String)
  /-- Runs a program. -/
  runProgram : Launch → m (Except String ProgramResult)
  /-- A name that was never given before. -/
  uniqueName : m String
  /-- The time, from any start. -/
  milliseconds : m Nat
  /-- Writes to the output. -/
  print : String → m Unit
  /-- Writes to the error stream. -/
  printError : String → m Unit

@[reducible] def Host.lifted {m n : Type → Type} [Host m] (lift : {α : Type} → m α → n α) : Host n where
  readFile path := lift (Host.readFile path)
  writeFile path text := lift (Host.writeFile path text)
  removeFile path := lift (Host.removeFile path)
  createDirectories path := lift (Host.createDirectories path)
  pathExists path := lift (Host.pathExists path)
  directoryNames path := lift (Host.directoryNames path)
  runProgram launch := lift (Host.runProgram launch)
  uniqueName := lift Host.uniqueName
  milliseconds := lift Host.milliseconds
  print text := lift (Host.print text)
  printError text := lift (Host.printError text)

instance {ε : Type} {m : Type → Type} [Monad m] [Host m] : Host (ExceptT ε m) :=
  Host.lifted ExceptT.lift

namespace Host

variable {m : Type → Type} [Monad m] [Host m]

/-- The text of a file, which has to be UTF-8. -/
def readText (path : String) : m (Except String String) := do
  match ← readFile path with
  | .error reason => pure (.error reason)
  | .ok bytes =>
    match String.fromUTF8? bytes with
    | some text => pure (.ok text)
    | none => pure (.error "stream did not contain valid UTF-8")

def printLine (line : String) : m Unit := print (line ++ "\n")

def printErrorLine (line : String) : m Unit := printError (line ++ "\n")

end Host

end InlineMacro
