import InlineMacro.Association
import InlineMacro.Machine.Files
import InlineMacro.Machine.Script
import InlineMacro.Text.Decimal
import InlineMacro.Text.Utf8

/-!
# The state of a shell

What a shell at work knows: the files, its parameters, where its output goes, and how the last
command ended.
-/

set_option autoImplicit false

namespace InlineMacro.Machine

/-- Where output goes: into a stream that is kept, or to the end of a file. -/
inductive Sink where
  | stream (index : Nat)
  | file (path : String)
deriving DecidableEq, Inhabited, Repr

/-- How running commands stops before their end: the script ends, the function ends, loops end or go
on, or a signal kills the shell. -/
inductive Stop where
  | exited
  | returned
  | left (loops : Nat) (goesOn : Bool)
  | killed (signal : Nat)
deriving DecidableEq, Inhabited, Repr

/-- The options of a shell. -/
structure Options where
  endsOnFailure : Bool := false
  refusesUnset : Bool := false
  traces : Bool := false
  ignoresPatterns : Bool := false
deriving DecidableEq, Inhabited, Repr

/-- A shell at work. Stream 0 is its output and stream 1 its errors; further ones hold what
substitutions and pipes pass on. -/
structure Shell where
  files : Files
  name : String := "sh"
  line : Nat := 1
  /-- What the script at work was named by, if it is not the shell's own. -/
  origin : String := ""
  arguments : List String := []
  bindings : Association String := []
  exported : List String := []
  fixed : List String := []
  functions : Association Command := []
  traps : Association String := []
  options : Options := {}
  status : Nat := 0
  /-- The status of the last substitution. -/
  substitutionStatus : Nat := 0
  input : ByteArray := ByteArray.empty
  streams : List ByteArray := [ByteArray.empty, ByteArray.empty]
  sinks : List (Nat × Sink) := [(1, .stream 0), (2, .stream 1)]
  loopDepth : Nat := 0
  /-- The variables that the function at work has for itself, with their values outside; none
  outside functions. -/
  locals : Option (List (String × Option String)) := none
  /-- Whether the status of the command at work is asked for, so that a failure does not end the
  script. -/
  isTested : Bool := false
deriving Inhabited

def Stop.exhausted : Stop := .killed 9

abbrev ShellRun := EStateM Stop Shell

namespace Shell

/-! ## Output and status -/

def emitTo (sink : Sink) (bytes : ByteArray) : ShellRun Unit :=
  modify fun shell =>
    match sink with
    | .stream index => { shell with streams := shell.streams.modify index (· ++ bytes) }
    | .file path =>
      let before := match shell.files.read path with
        | .ok bytes => bytes
        | .error _ => ByteArray.empty
      match shell.files.write path (before ++ bytes) with
      | .ok files => { shell with files := files }
      | .error _ => shell

/-- Writes bytes to a descriptor; what goes to a closed one is gone. -/
def emitAt (descriptor : Nat) (bytes : ByteArray) : ShellRun Unit := do
  match (← get).sinks.lookup descriptor with
  | some sink => emitTo sink bytes
  | none => pure ()

def emit (bytes : ByteArray) : ShellRun Unit := emitAt 1 bytes

def complain (message : String) : ShellRun Unit := emitAt 2 (message ++ "\n").toUTF8

def setStatus (status : Nat) : ShellRun Unit :=
  modify fun shell => { shell with status := status % 256 }

/-- Writes a line about a command of the script to the error stream. -/
def complainFor (command message : String) : ShellRun Unit := do
  let shell ← get
  let subject := if command.isEmpty then "" else command ++ ": "
  complain (shell.name ++ ": " ++ toString shell.line ++ ": " ++ subject ++ message)

def failFor (status : Nat) (command message : String) : ShellRun Unit := do
  complainFor command message
  setStatus status

def abortFor {α : Type} (command message : String) : ShellRun α := do
  failFor 2 command message
  throw .exited

def complainHere (message : String) : ShellRun Unit := do complainFor (← get).origin message

def statusOf (answer : Bool) : Nat := if answer then 0 else 1

def failHere (status : Nat) (message : String) : ShellRun Unit := do
  complainHere message
  setStatus status

def abort {α : Type} (message : String) : ShellRun α := do
  failHere 2 message
  throw .exited

/-! ## Parameters -/

/-- The value of a parameter; none if it is unset. -/
def parameter? (shell : Shell) (name : String) : Option String :=
  match Text.decimal? name.toList with
  | some 0 => some shell.name
  | some (index + 1) => shell.arguments[index]?
  | none =>
    match name with
    | "#" => some (toString shell.arguments.length)
    | "?" => some (toString shell.status)
    | "$" => some "1000"
    | _ => shell.bindings.find? name

def separators (shell : Shell) : List Char :=
  ((shell.bindings.find? "IFS").getD " \t\n").toList

def setVariable (name value : String) : ShellRun Unit := do
  if (← get).fixed.contains name then abort (name ++ ": is read only")
  modify fun shell => { shell with bindings := shell.bindings.insert name value }

def restoreVariable (bindings : Association String) (name : String) (value : Option String) :
    Association String :=
  match value with
  | some value => bindings.insert name value
  | none => bindings.erase name

/-! ## Redirections -/

def redirect (descriptor : Nat) (sink : Option Sink) : ShellRun Unit :=
  modify fun shell =>
    let others := shell.sinks.filter fun other => other.1 != descriptor
    { shell with sinks := (sink.toList.map fun sink => (descriptor, sink)) ++ others }

def deviceOf? (path : String) : Option Nat :=
  match path with
  | "/dev/stdin" | "/dev/fd/0" => some 0
  | "/dev/stdout" | "/dev/fd/1" => some 1
  | "/dev/stderr" | "/dev/fd/2" => some 2
  | _ => none

def isMissing (refusal : Refusal) : Bool := refusal = .noEntry || refusal = .notDirectory

/-- The bytes that a path leads to; the input, of which nothing is left then, is one. -/
def readPath (path : String) : ShellRun (Except Refusal ByteArray) := do
  if deviceOf? path = some 0 then
    let bytes := (← get).input
    modify fun shell => { shell with input := ByteArray.empty }
    return .ok bytes
  return (← get).files.read path

def duplicate (descriptor : Nat) (target : String) : ShellRun Bool := do
  if target = "-" then
    redirect descriptor none
    return true
  match Text.decimal? target.toList with
  | none => do
    complainHere "Bad fd number"
    return false
  | some source =>
    match (← get).sinks.lookup source with
    | some sink => do
      redirect descriptor (some sink)
      return true
    | none =>
      if source = 0 then return true
      complainHere (target ++ ": Bad file descriptor")
      return false

/-- Opens a file to be written; the answer is whether that succeeds. -/
def openForWriting (descriptor : Nat) (keepsContent : Bool) (target : String) : ShellRun Bool := do
  let shell ← get
  match deviceOf? target with
  | some device => do
    redirect descriptor (shell.sinks.lookup device)
    return true
  | none =>
    let before := match shell.files.read target with
      | .ok bytes => if keepsContent then bytes else ByteArray.empty
      | .error _ => ByteArray.empty
    match shell.files.write target before with
    | .ok files => do
      set { shell with files := files }
      redirect descriptor (some (.file target))
      return true
    | .error refusal => do
      let reason := if isMissing refusal then "Directory nonexistent" else refusal.description
      complainHere ("cannot create " ++ target ++ ": " ++ reason)
      return false

/-- Opens a file to be read; the answer is whether that succeeds. -/
def openForReading (descriptor : Nat) (target : String) : ShellRun Bool := do
  match ← readPath target with
  | .ok bytes => do
    if descriptor = 0 then modify fun shell => { shell with input := bytes }
    return true
  | .error .isDirectory => do
    if descriptor = 0 then modify fun shell => { shell with input := ByteArray.empty }
    return true
  | .error refusal => do
    let reason := if isMissing refusal then "No such file" else refusal.description
    complainHere ("cannot open " ++ target ++ ": " ++ reason)
    return false

/-- Opens the target of a redirection; the answer is whether that succeeds. -/
def openTarget (descriptor : Nat) (direction : Direction) (target : String) : ShellRun Bool := do
  match direction with
  | .duplicate => duplicate descriptor target
  | .write => openForWriting descriptor false target
  | .append => openForWriting descriptor true target
  | .read => openForReading descriptor target
  | .document => do
    if descriptor = 0 then modify fun shell => { shell with input := target.toUTF8 }
    return true

end Shell

end InlineMacro.Machine
