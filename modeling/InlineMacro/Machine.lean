import InlineMacro.Machine.Shell

/-!
# A host in memory

A host whose files, streams and programs are all in memory. The programs are shell scripts among the
files; the clock stands still.
-/

set_option autoImplicit false

namespace InlineMacro

namespace Machine

/-- The state of the host: its files, what was written to the streams, and how many unique names
were given. -/
structure World where
  files : Files := {}
  output : String := ""
  errors : String := ""
  nameCount : Nat := 0
deriving Inhabited

abbrev Action := StateM World

def inWords {α : Type} : Except Refusal α → Except String α
  | .ok value => .ok value
  | .error refusal => .error refusal.text

def changeFiles (change : Files → Except Refusal Files) : Action (Except String Unit) :=
  modifyGet fun world =>
    match change world.files with
    | .ok files => (.ok (), { world with files := files })
    | .error refusal => (.error refusal.text, world)

/-- Makes directories; those made before a refusal stay. -/
def makeDirectories (path : String) : Action (Except String Unit) :=
  modifyGet fun world =>
    let (answer, files) := world.files.createDirectories path
    (inWords answer, { world with files := files })

/-- Runs a script among the files; it never takes too long. -/
def runScript (launch : Launch) : Action (Except String ProgramResult) :=
  modifyGet fun world =>
    let (answer, files) :=
      Shell.launch world.files launch.program launch.arguments (launch.input.getD "").toUTF8
    (inWords answer, { world with files := files })

/-- The world in memory as a host. -/
instance : Host Action where
  readFile path := do return inWords ((← get).files.read path)
  writeFile path text := changeFiles fun files => files.write path text.toUTF8
  removeFile path := changeFiles fun files => files.remove path
  createDirectories := makeDirectories
  pathExists path := do return (← get).files.contains path
  directoryNames path := do return (← get).files.names path
  runProgram := runScript
  uniqueName := modifyGet fun world =>
    ("run" ++ toString world.nameCount, { world with nameCount := world.nameCount + 1 })
  milliseconds := pure 0
  print text := modify fun world => { world with output := world.output ++ text }
  printError text := modify fun world => { world with errors := world.errors ++ text }

end Machine

end InlineMacro
