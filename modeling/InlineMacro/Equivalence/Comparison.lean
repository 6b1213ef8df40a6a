import InlineMacro.Equivalence.Outcome
import InlineMacro.Equivalence.Suite
import InlineMacro.Path.Pattern
import InlineMacro.Transform

/-!
# Comparing programs

A program is built as it is and after its transformation, both are run, and what they print and return
is compared. The files this leaves in the build directory are known, and can be cleared.
-/

set_option autoImplicit false

namespace InlineMacro

/-- The files made of one program. -/
structure Artifacts where
  plainProgram : String
  transformedSource : String
  transformedProgram : String
deriving DecidableEq, Inhabited, Repr

namespace Artifacts

/-- The artifacts of a source file in a build directory; none if the path names no file. -/
def ofSource? (buildDirectory source : String) : Option Artifacts :=
  (Path.stem? source).map fun stem =>
    ⟨Path.join buildDirectory (stem ++ ".orig"), Path.join buildDirectory (stem ++ ".moi.c"),
      Path.join buildDirectory (stem ++ ".moi")⟩

def invalidPath : String := "Invalid C file path"

def patterns : List String := ["*.orig", "*.moi", "*.moi.c"]

section Removing

variable {m : Type → Type} [Monad m] [Host m]

def remove (artifacts : Artifacts) : m Unit := do
  let _ ← Host.removeFile artifacts.plainProgram
  let _ ← Host.removeFile artifacts.transformedSource
  let _ ← Host.removeFile artifacts.transformedProgram

def removeAll : List String → ExceptT Complaint m Nat
  | [] => pure 0
  | path :: paths => do
    if ← Host.pathExists path then
      match ← Host.removeFile path with
      | .ok () => pure ()
      | .error reason => throw (.within ("Failed to remove file: " ++ path) ⟨reason, []⟩)
    return 1 + (← removeAll paths)

def removeMatching (buildDirectory : String) : List String → ExceptT Complaint m Nat
  | [] => pure 0
  | pattern :: patterns => do
    let paths ← Path.matching (Path.join buildDirectory pattern)
    let count ← removeAll paths
    return count + (← removeMatching buildDirectory patterns)

def clear (buildDirectory : String) : ExceptT Complaint m Nat :=
  removeMatching buildDirectory patterns

end Removing

end Artifacts

/-- How programs are compared. -/
structure ComparisonSettings where
  compiler : String := "gcc"
  plainFlags : List String := ["-std=gnu89"]
  transformedFlags : List String := ["-ansi", "-pedantic"]
  secondsLimit : Nat := 5
  isVerbose : Bool := false
  keepsArtifacts : Bool := false
  baseDirectory : String := ""
  buildDirectory : String := ""
deriving Inhabited, Repr

/-- What a program did when it was run. -/
structure Observation where
  output : String
  status : Int
deriving DecidableEq, Inhabited, Repr

def Observation.text (observation : Observation) : String :=
  observation.output ++ "[exit status " ++ toString observation.status ++ "]\n"

/-- Why a program was not observed. -/
inductive BuildFault where
  | failed (account : String)
  | timeout (account : String)
deriving DecidableEq, Inhabited, Repr

/-- The outcome when a program was not observed; `which` says whether it was transformed. -/
def BuildFault.outcome (name which : String) : BuildFault → Outcome
  | failed account =>
    { name, verdict := .notBuilt, message := some (which ++ " build failed: " ++ account) }
  | timeout account => { name, verdict := .timedOut, message := some (which ++ ": " ++ account) }

namespace ProgramResult

def exitStatus (result : ProgramResult) : Int := result.ending.status?.getD (-1)

def account (seconds : Nat) (result : ProgramResult) : String :=
  if result.ending = .timeout then "Timeout after " ++ toString seconds ++ "s"
  else result.errorText

end ProgramResult

namespace ComparisonSettings

variable {m : Type → Type} [Monad m] [Host m]

def buildFactor : Nat := 6

def sourcePath (settings : ComparisonSettings) (file : String) : String :=
  if Path.isAbsolute file then file else Path.join settings.baseDirectory file

def runLimited (program : String) (arguments : List String) (seconds : Nat) :
    ExceptT BuildFault m ProgramResult := do
  match ← Host.runProgram { program, arguments, limit := some seconds } with
  | .ok result => pure result
  | .error reason => throw (.failed ("Failed to spawn " ++ program ++ ": " ++ reason))

def observe (settings : ComparisonSettings) (source program : String) (flags : List String) :
    ExceptT BuildFault m Observation := do
  let _ ← Host.removeFile program
  let arguments := flags ++ ["-o", program, source]
  let buildLimit := settings.secondsLimit * buildFactor
  let build ← runLimited settings.compiler arguments buildLimit
  if build.exitStatus ≠ 0 then
    throw (.failed (settings.compiler ++ " " ++ Text.join " " arguments ++ "\n" ++
      build.account buildLimit))
  let result ← runLimited program [] settings.secondsLimit
  if result.ending = .timeout then throw (.timeout (result.account settings.secondsLimit))
  pure ⟨result.outputText, result.exitStatus⟩

def transformed (source : String) (configuration : Configuration) :
    ExceptT Complaint m String := do
  let command := PreprocessorCommand.ofFlags configuration.preprocessor
    configuration.extraFlags configuration.includePaths
  match ← (transformFile configuration command.preprocessor source : ExceptT Failure m String).run with
  | .ok text => pure text
  | .error failure => throw (.within ("macroizing " ++ source) ⟨failure.message, []⟩)

def judge (program : TestProgram) (before after : Observation) : Outcome :=
  { name := program.name
    verdict := if after.text = before.text then .passed else .differs
    message := program.description
    actual := some after.text
    expected := some before.text }

/-- The outcome when the program itself does not print what it should. -/
def unexpectedOutput? (program : TestProgram) (before : Observation) : Option Outcome :=
  (program.expected.filter fun expected => before.output != expected).map fun expected =>
    { name := program.name
      verdict := .differs
      message := some "The original program does not print the expected output"
      actual := some before.output
      expected := some expected }

def compareTransformed (settings : ComparisonSettings) (program : TestProgram)
    (artifacts : Artifacts) (before : Observation) (text : String) : m Outcome := do
  match ← Host.writeFile artifacts.transformedSource text with
  | .error reason => pure { name := program.name, verdict := .skipped, message := some reason }
  | .ok () =>
    match ← (settings.observe artifacts.transformedSource artifacts.transformedProgram
      settings.transformedFlags : ExceptT BuildFault m Observation).run with
    | .error fault => pure (fault.outcome program.name "macroized")
    | .ok after => pure (judge program before after)

def compareBuilds (settings : ComparisonSettings) (program : TestProgram) (source : String)
    (artifacts : Artifacts) : m Outcome := do
  match ← (settings.observe source artifacts.plainProgram settings.plainFlags :
    ExceptT BuildFault m Observation).run with
  | .error fault => pure (fault.outcome program.name "original")
  | .ok before =>
    match unexpectedOutput? program before with
    | some outcome => pure outcome
    | none =>
      match ← (transformed source (program.configuration settings.compiler) :
        ExceptT Complaint m String).run with
      | .error complaint =>
        pure { name := program.name, verdict := .notTransformed, message := some complaint.oneLine }
      | .ok text => settings.compareTransformed program artifacts before text

def compareFile (settings : ComparisonSettings) (program : TestProgram) : m Outcome := do
  let source := settings.sourcePath program.file
  if !(← Host.pathExists source) then
    pure { name := program.name, verdict := .skipped, message := some "File not found" }
  else
    match Artifacts.ofSource? settings.buildDirectory source with
    | none =>
      pure { name := program.name, verdict := .skipped, message := some Artifacts.invalidPath }
    | some artifacts =>
      let outcome ← settings.compareBuilds program source artifacts
      if !settings.keepsArtifacts then artifacts.remove
      pure outcome

def compare (settings : ComparisonSettings) (program : TestProgram) : m Outcome := do
  let start ← Host.milliseconds
  let outcome ← settings.compareFile program
  let stop ← Host.milliseconds
  pure { outcome with milliseconds := stop - start }

def knownOutcome (description : Option String) (outcome : Outcome) : Outcome :=
  match outcome.verdict with
  | .passed =>
    { name := outcome.name, verdict := .unexpectedPass,
      message := some "Expected to fail but passed" }
  | .skipped => outcome
  | _ => { name := outcome.name, verdict := .knownFailure, message := description }

def compareKnown (settings : ComparisonSettings) (failure : KnownFailure) : m Outcome := do
  let program : TestProgram := { file := failure.file, description := failure.description }
  return knownOutcome failure.description (← settings.compare program)

def report (settings : ComparisonSettings) (summary : Summary) (outcomes : List Outcome) :
    m Summary := do
  Host.print (Text.join "" (outcomes.map (Outcome.text settings.isVerbose)))
  pure (outcomes.foldl Summary.add summary)

def printTitle (title : String) : m Unit :=
  Host.print ("\n" ++ title ++ "\n" ++ Text.repeated "-" Summary.width ++ "\n")

/-- Compares all programs of a suite, by their names in order, and then those known to fail. -/
def compareAll (settings : ComparisonSettings) (suite : TestSuite) : m Summary := do
  let programs := suite.programs.mergeSort fun first second => first.name ≤ second.name
  let summary ←
    if programs.isEmpty then pure {}
    else
      printTitle "Equivalence tests:"
      settings.report {} (← programs.mapM settings.compare)
  if suite.knownFailures.isEmpty then pure summary
  else
    printTitle "Known failure tests:"
    settings.report summary (← suite.knownFailures.mapM settings.compareKnown)

def bareName (name : String) : String :=
  if name.endsWith ".c" then String.ofList (name.toList.take (name.length - 2)) else name

def programNamed? (suite : TestSuite) (name : String) : Option TestProgram :=
  suite.programs.find? fun program => program.name == bareName name

def reportMissing (names : List String) : m Unit := do
  if !names.isEmpty then
    Host.printErrorLine "ERROR: The following tests were not found:"
    Host.printError (Text.join "" (names.map fun name => "  ✗ " ++ name ++ "\n"))

def compareNamed (settings : ComparisonSettings) (suite : TestSuite) (names : List String) :
    ExceptT Complaint m Summary := do
  let missing := names.filter fun name => (programNamed? suite name).isNone
  let programs := names.filterMap (programNamed? suite)
  reportMissing missing
  if programs.isEmpty then throw ⟨"No tests found matching the given names", []⟩
  settings.report { notFound := missing.length } (← programs.mapM fun program => settings.compare program)

end ComparisonSettings

end InlineMacro
