import InlineMacro.CommandLine
import InlineMacro.Transform

/-!
# The transformer

The program that transforms a file: its command line, which changes the settings that a file of
settings gives, and its output.
-/

set_option autoImplicit false

namespace InlineMacro.Transformer

open CommandLine

def outputOption : OptionForm :=
  { key := "output", letter := some 'o', long := some "output",
    value := some { name := "OUTPUT", accepts := acceptsPath },
    help := "Output file (defaults to stdout)" }

def preprocessorFlagOption : OptionForm :=
  { key := "cpp-flag", letter := some 'X', long := some "cpp-flag",
    value := some { name := "FLAG", isRepeated := true, acceptsDashes := true },
    help := "Extra preprocessor flag; a leading `_` stands for `-` (`_DNDEBUG`)" }

def verboseOption : OptionForm :=
  { key := "verbose", letter := some 'v', long := some "verbose", help := "Verbose output" }

def longFlag (name help : String) : OptionForm := { key := name, long := some name, help := help }

def form : Form where
  name := "moi"
  about := "Turn inline C functions into hygienic macros"
  version := some "0.1.0"
  positional := some { name := "INPUT", accepts := acceptsPath, help := "Input C source file" }
  options := [
    outputOption,
    longFlag "with-cpp" "Run the system preprocessor on the input first",
    { key := "cpp", long := some "cpp", value := some { name := "PROGRAM" },
      help := "Preprocessor program (invoked with -E)" },
    { key := "include", letter := some 'I',
      value := some { name := "DIR", isRepeated := true, accepts := acceptsPath },
      help := "Include directories for the preprocessor" },
    preprocessorFlagOption,
    longFlag "macroize-static-funs" "Also macroize `static` functions that are not `inline`",
    { key := "inline-mask", long := some "inline-mask",
      value := some { name := "N", accepts := fun text => (Text.signedDecimal? 256 text.toList).isSome },
      help := "Specifier mask: 1 = static inline, 2 = inline, 4 = static" },
    longFlag "no-normalize-labels"
      "Keep the generated `#define`s instead of expanding them to shorten labels",
    longFlag "keep-originals" "Leave the original definitions after the macros",
    longFlag "purge-inlines"
      "Remove prototypes of macroized functions even with --keep-originals",
    longFlag "record" "Dump intermediate trees for debugging",
    { key := "record-dir", long := some "record-dir",
      value := some { name := "DIR", accepts := acceptsPath },
      help := "Where `--record` writes" },
    { key := "config", long := some "config",
      value := some { name := "FILE", accepts := acceptsPath },
      help := "JSON configuration file; flags override it" },
    longFlag "print-config" "Print the effective configuration as JSON and exit",
    verboseOption]

/-- The settings with what the command line says about them. -/
def adjusted (found : Matches) (settings : Configuration) : Configuration :=
  { settings with
    usesPreprocessor := settings.usesPreprocessor || found.hasFlag "with-cpp"
    selectsStatic := settings.selectsStatic || found.hasFlag "macroize-static-funs"
    keepsDefinitions := settings.keepsDefinitions || found.hasFlag "keep-originals"
    purgesPrototypes := settings.purgesPrototypes || found.hasFlag "purge-inlines"
    normalizesLabels := settings.normalizesLabels && !found.hasFlag "no-normalize-labels"
    inlineMask :=
      ((found.value? "inline-mask").bind fun value =>
        Text.signedDecimal? 256 value.toList).getD settings.inlineMask
    preprocessor := (found.value? "cpp").getD settings.preprocessor
    includePaths := settings.includePaths ++ found.valuesOf "include"
    extraFlags := settings.extraFlags ++ found.valuesOf "cpp-flag"
    record := {
      isEnabled := settings.record.isEnabled || found.hasFlag "record"
      directory := (found.value? "record-dir").getD settings.record.directory } }

section Run

variable {m : Type → Type} [Monad m] [Host m]

def settings (found : Matches) : ExceptT Failure m Configuration := do
  let base ← match found.value? "config" with
    | some path => Configuration.ofFile path
    | none => pure {}
  pure (adjusted found base)

def writeResult (path : Option String) (text : String) : ExceptT Failure m Unit := do
  match path with
  | none => Host.print text
  | some path =>
    match ← Host.writeFile path text with
    | .ok () => pure ()
    | .error reason => throw (.inputOutput reason)

/-- Carries out what the command line says. -/
def carryOut (found : Matches) : ExceptT Failure m Unit := do
  let configuration ← settings found
  if found.hasFlag "print-config" then Host.printLine configuration.toJson.pretty
  else
    let command := PreprocessorCommand.ofFlags configuration.preprocessor
      configuration.extraFlags configuration.includePaths
    let text ← transformFile configuration command.preprocessor
      ((found.positionals.head?).getD "")
    writeResult (found.value? "output") text

/-- Reports a failure. Where the source is at fault, it may only have to be preprocessed. -/
def report (failure : Failure) : m Unit := do
  Host.printErrorLine ("error: " ++ failure.message)
  if failure.isSyntaxError then
    Host.printErrorLine "hint: did you forget to preprocess first? Try --with-cpp"

/-- Runs the program; the result is its exit status. -/
def run (arguments : List String) : m Nat := do
  match form.read arguments with
  | .error stop => form.stop stop
  | .ok (found, _) =>
    match ← (carryOut found : ExceptT Failure m Unit).run with
    | .ok () => pure 0
    | .error failure => do
      report failure
      pure failure.exitStatus

end Run

end InlineMacro.Transformer
