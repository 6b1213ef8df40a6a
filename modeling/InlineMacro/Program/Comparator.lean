import InlineMacro.CommandLine
import InlineMacro.Equivalence.Comparison

/-!
# The comparator

The program that compares the behaviour of the programs of a suite before and after their
transformation.
-/

set_option autoImplicit false

namespace InlineMacro.Comparator

open CommandLine

def commands : List (String × String) := [
  ("run", "Run tests (default if no command specified)"),
  ("clean", "Clean build directory"),
  ("list", "List all available tests"),
  ("show", "Print the macroized text of one test and its diff against the input")]

def defaultedOption (name valueName standard help : String)
    (accepts : String → Bool := fun _ => true) : OptionForm :=
  { key := name, long := some name,
    value := some { name := valueName, standard := some standard, accepts := accepts },
    help := help }

def form : Form where
  name := "mot"
  about := "Equivalence test runner for the macro-of-inline transformer"
  longAbout := some ("mot - macro-of-inline test runner\n\n" ++
    "Builds each test program as written and after macroization, runs both and compares what they " ++
    "print and return.")
  version := some "0.1.0"
  positional := some {
    name := "TEST", isRepeated := true, isRequired := false,
    help := "Test names to run (without path or .c extension)" }
  commands := commands
  options := [
    defaultedOption "tests-file" "TESTS_FILE" "moi-test/tests.json" "Test list" acceptsPath,
    defaultedOption "build-dir" "BUILD_DIR" "moi-test/build" "Build directory for artifacts"
      acceptsPath,
    defaultedOption "cc" "CC" "gcc" "C compiler (also used as the preprocessor)",
    { defaultedOption "timeout" "TIMEOUT" "5" "Timeout in seconds for running a test program"
        (acceptsNumber wordBound) with letter := some 't' },
    { key := "verbose", letter := some 'v', long := some "verbose",
      help := "Show output from test programs" },
    { key := "no-cleanup", long := some "no-cleanup",
      help := "Don't clean up generated files after tests" },
    { key := "no-parallel", long := some "no-parallel",
      help := "Disable parallel test execution" },
    { key := "jobs", letter := some 'j', long := some "jobs",
      value := some { name := "JOBS", accepts := acceptsNumber wordBound },
      help := "Worker threads (defaults to the number of CPUs)" }]

def runForm : Form where
  name := "mot run"
  about := "Run tests (default if no command specified)"
  options := [
    { key := "filter", letter := some 'f', long := some "filter",
      value := some { name := "FILTER" }, help := "Run tests whose path contains this pattern" }]

def cleanForm : Form where
  name := "mot clean"
  about := "Clean build directory"

def listForm : Form where
  name := "mot list"
  about := "List all available tests"
  options := [
    { key := "names-only", letter := some 'n', long := some "names-only",
      help := "Show only test names (no details)" }]

def showForm : Form where
  name := "mot show"
  about := "Print the macroized text of one test and its diff against the input"
  positional := some { name := "TEST", help := "Test name or file path" }

def helpForm : Form where
  name := "mot help"
  about := helpCommand.2
  offersHelp := false
  positional := some {
    name := "COMMAND", isRepeated := true, isRequired := false,
    help := "Print help for the subcommand(s)" }

def formNamed? : List String → Option Form
  | [] => some form
  | [name] =>
    List.lookup name [("run", runForm), ("clean", cleanForm), ("list", listForm),
      ("show", showForm), ("help", helpForm)]
  | _ => none

/-- What is to be done. -/
inductive Task where
  | compare (filter : Option String)
  | clean
  | list (namesOnly : Bool)
  | display (name : String)
deriving DecidableEq, Inhabited, Repr

/-- The task of a command with its arguments; or the form that says why there is none. -/
def taskOf (name : String) (arguments : List String) : Except (Form × Stop) Task :=
  let read (form : Form) (task : Matches → Task) : Except (Form × Stop) Task :=
    match form.read arguments with
    | .ok (found, _) => .ok (task found)
    | .error stop => .error (form, stop)
  match name with
  | "clean" => read cleanForm fun _ => .clean
  | "list" => read listForm fun found => .list (found.hasFlag "names-only")
  | "show" => read showForm fun found => .display ((found.positionals.head?).getD "")
  | _ => read runForm fun found => .compare (found.value? "filter")

def suiteFile (found : Matches) : String := (found.value? "tests-file").getD "moi-test/tests.json"

def settings (found : Matches) : ComparisonSettings where
  compiler := (found.value? "cc").getD "gcc"
  secondsLimit := ((found.value? "timeout").bind fun value =>
    Text.boundedDecimal? wordBound value.toList).getD 5
  isVerbose := found.hasFlag "verbose"
  keepsArtifacts := found.hasFlag "no-cleanup"
  baseDirectory := (Path.parent? (suiteFile found)).getD "."
  buildDirectory := (found.value? "build-dir").getD "moi-test/build"

def occursIn (part whole : List Char) : Bool :=
  match whole with
  | [] => part.isEmpty
  | _ :: rest => part.isPrefixOf whole || occursIn part rest

/-! ## Lists -/

def programLines (program : TestProgram) : String :=
  let expected := if program.expected.isSome then "defined" else "original run"
  let options := if program.settings.isSome then "custom" else "default"
  program.file ++ " (expected: " ++ expected ++ ", options: " ++ options ++ ")\n" ++
    (match program.description with
    | some description => "  " ++ description ++ "\n"
    | none => "")

def failureLines (failure : KnownFailure) : String :=
  failure.file ++ "\n" ++
    (match failure.description with
    | some description => "  " ++ description ++ "\n"
    | none => "")

def listText (suite : TestSuite) (namesOnly : Bool) : String :=
  if namesOnly then Text.join "" (suite.programs.map fun program => program.name ++ "\n")
  else
    let rule := Text.repeated "-" Summary.width ++ "\n"
    "Available tests:\n" ++ rule ++ Text.join "" (suite.programs.map programLines) ++
      (if suite.knownFailures.isEmpty then ""
      else "\nKnown failures:\n" ++ rule ++ Text.join "" (suite.knownFailures.map failureLines))

/-! ## Tasks -/

section Run

variable {m : Type → Type} [Monad m] [Host m]

def suiteOf (path : String) : ExceptT Complaint m TestSuite := do
  match ← Host.readText path with
  | .error reason => throw (.within ("reading " ++ path) ⟨reason, []⟩)
  | .ok text =>
    match TestSuite.parse text with
    | .ok suite => pure suite
    | .error fault => throw (.within ("parsing " ++ path) ⟨fault.message, []⟩)

/-- Whether a program can be run and knows its version. -/
def isInstalled (program : String) : m Bool := do
  match ← Host.runProgram { program, arguments := ["--version"] } with
  | .ok result => pure result.isSuccess
  | .error _ => pure false

def conclude (summary : Summary) : ExceptT Complaint m Nat := do
  Host.print summary.text
  pure summary.exitStatus

def comparePrograms (found : Matches) (filter : Option String) : ExceptT Complaint m Nat := do
  let settings := settings found
  if !(← isInstalled settings.compiler) then
    throw ⟨"C compiler '" ++ settings.compiler ++ "' not found", []⟩
  let suite ← suiteOf (suiteFile found)
  if !found.positionals.isEmpty then
    conclude (← settings.compareNamed suite found.positionals)
  else
    match filter with
    | none => conclude (← settings.compareAll suite)
    | some pattern =>
      let names := (suite.programs.filter fun program =>
        occursIn pattern.toList program.file.toList).map TestProgram.name
      if names.isEmpty then
        Host.printLine ("No tests match filter: " ++ pattern)
        pure 0
      else
        Host.printLine ("Running " ++ toString names.length ++ " tests matching '" ++ pattern ++ "'")
        conclude (← settings.compareNamed suite names)

/-- Shows the transformed source of a program, and how it differs. -/
def display (found : Matches) (name : String) : ExceptT Complaint m Nat := do
  let settings := settings found
  let suite ← suiteOf (suiteFile found)
  let wanted (program : TestProgram) : Bool :=
    program.name == ComparisonSettings.bareName name || program.file == name
  match suite.programs.find? wanted with
  | none => throw ⟨"no test named '" ++ name ++ "'", []⟩
  | some program =>
    let path := settings.sourcePath program.file
    match ← Host.readText path with
    | .error reason => throw (.within ("reading " ++ path) ⟨reason, []⟩)
    | .ok source =>
      let text ← ComparisonSettings.transformed path (program.configuration settings.compiler)
      Host.print ("== " ++ path ++ " ==\n" ++ text ++ differenceText "Changes:" source text)
      pure 0

/-- Carries out a task; the result is the exit status. -/
def carryOut (found : Matches) (task : Task) : ExceptT Complaint m Nat := do
  let buildDirectory := (settings found).buildDirectory
  match ← Host.createDirectories buildDirectory with
  | .error reason => throw (.within ("creating " ++ buildDirectory) ⟨reason, []⟩)
  | .ok () =>
    match task with
    | .compare filter => comparePrograms found filter
    | .clean =>
      Host.printLine "Cleaning build directory..."
      let count ← Artifacts.clear buildDirectory
      Host.printLine ("Removed " ++ toString count ++ " files")
      pure 0
    | .list namesOnly =>
      Host.print (listText (← suiteOf (suiteFile found)) namesOnly)
      pure 0
    | .display name => display found name

/-- Runs the program; the result is its exit status. -/
def run (arguments : List String) : m Nat := do
  match form.read arguments with
  | .error stop => form.stop stop formNamed?
  | .ok (found, command) =>
    let task : Except (Form × Stop) Task := match command with
      | none => .ok (.compare none)
      | some (name, arguments) => taskOf name arguments
    match task with
    | .error (form, stop) => form.stop stop
    | .ok task =>
      match ← (carryOut found task : ExceptT Complaint m Nat).run with
      | .ok status => pure status
      | .error complaint => do
        Host.printErrorLine ("Error: " ++ complaint.oneLine)
        pure 1

end Run

end InlineMacro.Comparator
