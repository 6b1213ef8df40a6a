import InlineMacro.Labels
import InlineMacro.Preprocessor
import InlineMacro.Preprocessor.Inclusion
import InlineMacro.Recorder

/-!
# From source to source

Transforming a text or a file: its functions are made macros and, if that is wanted, the macros are
expanded and their labels shortened. A file that is preprocessed first gets its directives back, and
what came from headers is left out.
-/

set_option autoImplicit false

namespace InlineMacro

/-- The file a unit comes from, and where it includes headers. -/
structure MainFile where
  name : String
  inclusions : List Inclusion

/-! ## What comes from headers -/

def Item.isOf (mainFile : String) : Item → Bool
  | .verbatim .. => true
  | item => item.span.file == mainFile

def Item.typedefName? : Item → Option String
  | .declaration declared => if declared.isTypedef then some declared.name else none
  | _ => none

namespace CompilationUnit

def withoutHeaders (mainFile : String) (unit : CompilationUnit) : CompilationUnit :=
  { unit with items := unit.items.filter (Item.isOf mainFile) }

def headerTypedefs (mainFile : String) (unit : CompilationUnit) : List String :=
  (unit.items.filter fun item => !item.isOf mainFile).filterMap Item.typedefName?

end CompilationUnit

/-! ## The run -/

section Run

variable {m : Type → Type} [Monad m] [Host m]

def Preprocessor.require (answer : m (Except PreprocessorFault String)) : ExceptT Failure m String :=
  ExceptT.mk do
    match ← answer with
    | .ok text => pure (.ok text)
    | .error fault => pure (.error fault.toFailure)

namespace CompilationUnit

/-- Expands the macros of a unit and shortens the labels. The names given are types' names. -/
def expandLabels (preprocessor : Preprocessor m) (typedefs : List String)
    (unit : CompilationUnit) (registry : Registry) :
    ExceptT Failure m (CompilationUnit × Registry) := do
  let expanded ← Preprocessor.require (preprocessor.expand unit.text)
  match CompilationUnit.ofExpanded expanded typedefs registry with
  | .ok result => pure result
  | .error failure => throw failure

/-- Makes macros of a unit's functions and records how. -/
def macroizeRecorded (configuration : Configuration) (unit : CompilationUnit) :
    ExceptT Failure m (Report × CompilationUnit × Registry × Recorder) := do
  let recorder ← Recorder.start configuration.record
  match (unit.macroize configuration).run { registry := {} } with
  | .ok (report, unit) state =>
    let recorder ← recorder.recordAll state.snapshots
    pure (report, unit, state.registry, recorder)
  | .error failure state =>
    let _ ← recorder.recordAll state.snapshots
    throw failure

def transform (configuration : Configuration) (preprocessor : Preprocessor m)
    (mainFile : Option MainFile) (unit : CompilationUnit) : ExceptT Failure m String := do
  let (report, unit, registry, recorder) ← unit.macroizeRecorded configuration
  let (typedefs, own) := match mainFile with
    | some file => (unit.headerTypedefs file.name, unit.withoutHeaders file.name)
    | none => ([], unit)
  let final ←
    if configuration.normalizesLabels && !report.macroized.isEmpty then
      Prod.fst <$> own.expandLabels preprocessor typedefs registry
    else pure own
  let directives := match mainFile with
    | some file => file.inclusions.map fun inclusion => inclusion.directive ++ "\n"
    | none => []
  let text := Text.join "" directives ++ withoutEmptyStatements final.text
  let _ ← recorder.record (.text "output" text)
  pure text

end CompilationUnit

def requireResult {α : Type} : Except Failure α → ExceptT Failure m α
  | .ok value => pure value
  | .error failure => throw failure

def transformSource (configuration : Configuration) (preprocessor : Preprocessor m)
    (source : String) : ExceptT Failure m String := do
  let unit ← requireResult (CompilationUnit.parse source)
  unit.transform configuration preprocessor none

def requireFile (path : String) : ExceptT Failure m String := do
  match ← Host.readText path with
  | .ok text => pure text
  | .error reason => throw (.inputOutput reason)

def Configuration.ofFile (path : String) : ExceptT Failure m Configuration := do
  requireResult (Configuration.parse (← requireFile path))

def transformFile (configuration : Configuration) (preprocessor : Preprocessor m)
    (path : String) : ExceptT Failure m String := do
  let source ← requireFile path
  if configuration.usesPreprocessor then
    let preprocessed ← Preprocessor.require (preprocessor.preprocessFile path)
    let found ← requireResult (inclusions path preprocessed source)
    let unit ← requireResult (CompilationUnit.parse preprocessed path)
    unit.transform configuration preprocessor (some ⟨path, found⟩)
  else
    let unit ← requireResult (CompilationUnit.parse source path)
    unit.transform configuration preprocessor none

end Run

end InlineMacro
