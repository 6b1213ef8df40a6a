import InlineMacro.Program.Comparator
import InlineMacro.Program.Expander

/-!
# The command line

The host is the system itself, as far as its files and streams go. Other programs cannot be launched
from here and directories cannot be listed; a preprocessor or a compiler that is asked for is reported
as one that cannot be launched.
-/

set_option autoImplicit false

namespace InlineMacro

/-- The words for a refusal of the system. -/
def refusalText : IO.Error → String
  | .noFileOrDirectory .. => "No such file or directory (os error 2)"
  | .permissionDenied .. => "Permission denied (os error 13)"
  | .alreadyExists .. => "File exists (os error 17)"
  | other => toString other

/-- The result of a request to the system. -/
def attempt {α : Type} (request : IO α) : IO (Except String α) := do
  match ← request.toBaseIO with
  | .ok value => pure (.ok value)
  | .error refusal => pure (.error (refusalText refusal))

def randomName : IO String := do
  let number ← IO.rand 0 1000000000000000000
  let time ← IO.monoNanosNow
  pure (toString time ++ "-" ++ toString number)

instance : Host IO where
  readFile path := attempt (IO.FS.readBinFile path)
  writeFile path text := attempt (IO.FS.writeFile path text)
  removeFile path := attempt (IO.FS.removeFile path)
  createDirectories path := attempt (IO.FS.createDirAll path)
  pathExists path := do
    match ← attempt (IO.FS.withFile path .read fun _ => pure ()) with
    | .ok () => pure true
    | .error _ => pure false
  directoryNames _ := pure []
  runProgram _ := pure (.error "programs cannot be started")
  uniqueName := randomName
  milliseconds := IO.monoMsNow
  print text := IO.print text
  printError text := IO.eprint text

def runNamed : List String → IO Nat
  | "moi" :: arguments => Transformer.run arguments
  | "moi-cpp" :: arguments => Expander.run arguments
  | "mot" :: arguments => Comparator.run arguments
  | arguments => Transformer.run arguments

end InlineMacro

def main (arguments : List String) : IO UInt32 := do
  return UInt32.ofNat (← InlineMacro.runNamed arguments)
