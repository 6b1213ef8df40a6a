import InlineMacro.Host
import InlineMacro.Macroize
import InlineMacro.Path
import InlineMacro.Syntax.Encoding

/-!
# Recording a run

The snapshots of a run are written into a directory of its own. Snapshots of the unit are numbered
through; those of a function lie in a directory that is named for the numbers of the unit's
snapshots around it and for the function, and are numbered from zero in it. What cannot be written
is left out; a run never fails for its record.
-/

set_option autoImplicit false

namespace InlineMacro

/-- Where a snapshot is written, relative to the record's directory, and what. -/
structure RecordEntry where
  directory : Option String
  file : String
  content : String
deriving DecidableEq, Inhabited, Repr

/-- How many snapshots of the unit there are, and how many of each function since the last. -/
structure RecordPosition where
  unitCount : Nat := 0
  functionCounts : Association Nat := []
deriving Inhabited, Repr

namespace RecordPosition

def unitEntry (title content : String) (position : RecordPosition) :
    RecordEntry × RecordPosition :=
  (⟨none, toString position.unitCount ++ "-" ++ title ++ ".c", content⟩,
    ⟨position.unitCount + 1, []⟩)

def functionDirectory (name : String) (position : RecordPosition) : String :=
  Path.join (toString (position.unitCount - 1) ++ "-" ++ toString position.unitCount) name

def functionCount (name : String) (position : RecordPosition) : Nat :=
  (position.functionCounts.find? name).getD 0

def functionEntry (name title content : String) (position : RecordPosition) :
    RecordEntry × RecordPosition :=
  let count := position.functionCount name
  (⟨some (position.functionDirectory name),
      toString count ++ "-" ++ title ++ ".txt", content⟩,
    { position with functionCounts := position.functionCounts.insert name (count + 1) })

def functionContent (function : Function) : String :=
  function.text ++ "\n" ++ (Encoding.function function).pretty ++ "\n"

def entry (position : RecordPosition) : Snapshot → RecordEntry × RecordPosition
  | .unit title unit => position.unitEntry title unit.text
  | .text title text => position.unitEntry title text
  | .function name title function => position.functionEntry name title (functionContent function)

end RecordPosition

/-- The directory that is written into, if there is one, and the position in the record. -/
structure Recorder where
  directory : Option String := none
  position : RecordPosition := {}
deriving Inhabited

namespace Recorder

variable {m : Type → Type} [Monad m] [Host m]

def isEnabled (recorder : Recorder) : Bool := recorder.directory.isSome

/-- Starts a record in a new directory, if that is wanted and possible. -/
def start (settings : RecordSettings) : m Recorder := do
  if !settings.isEnabled then pure {}
  else
    let directory := Path.join settings.directory (← Host.uniqueName)
    match ← Host.createDirectories directory with
    | .ok () => pure { directory := some directory }
    | .error _ => pure {}

/-- Writes an entry. A function whose directory cannot be made is not counted. -/
def write (recorder : Recorder) (entered : RecordEntry × RecordPosition) : m Recorder := do
  match recorder.directory with
  | none => pure recorder
  | some root =>
    let (entry, position) := entered
    match entry.directory with
    | none =>
      let _ ← Host.writeFile (Path.join root entry.file) entry.content
      pure { recorder with position := position }
    | some inner =>
      let directory := Path.join root inner
      match ← Host.createDirectories directory with
      | .error _ => pure recorder
      | .ok () =>
        let _ ← Host.writeFile (Path.join directory entry.file) entry.content
        pure { recorder with position := position }

def record (recorder : Recorder) (snapshot : Snapshot) : m Recorder :=
  recorder.write (recorder.position.entry snapshot)

def recordAll (recorder : Recorder) : List Snapshot → m Recorder
  | [] => pure recorder
  | snapshot :: snapshots => do
    let recorder ← recorder.record snapshot
    recorder.recordAll snapshots

end Recorder

end InlineMacro
