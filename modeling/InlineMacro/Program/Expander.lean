import InlineMacro.Complaint
import InlineMacro.Program.Transformer

/-!
# The expander

The program that runs the preprocessor on a file the way the transformer does. It shows the text, or
where the file includes headers.
-/

set_option autoImplicit false

namespace InlineMacro.Expander

open CommandLine

def form : Form where
  name := "moi-cpp"
  about := "Run the system C preprocessor the way the macro-of-inline transformer does"
  version := some "0.1.0"
  positional := some { name := "INPUT", accepts := acceptsPath, help := "Input C source file" }
  options := [
    Transformer.outputOption,
    { key := "cpp", long := some "cpp",
      value := some { name := "PROGRAM", standard := some "gcc" },
      help := "Preprocessor program (invoked with -E)" },
    { key := "include", letter := some 'I', long := some "include",
      value := some { name := "DIR", isRepeated := true, accepts := acceptsPath },
      help := "Include directories" },
    Transformer.preprocessorFlagOption,
    Transformer.longFlag "includes"
      "Print the top-level #include analysis instead of the expanded text",
    Transformer.verboseOption]

def inclusionLine (inclusion : Inclusion) : String :=
  toString inclusion.line ++ "\t" ++ inclusion.directive ++ "\t" ++ inclusion.header ++ "\n"

section Run

variable {m : Type → Type} [Monad m] [Host m]

def shown (found : Matches) (path preprocessed : String) :
    ExceptT Complaint m (Except Failure String) := do
  if found.hasFlag "includes" then
    match ← Host.readText path with
    | .ok source =>
      pure ((inclusions path preprocessed source).map fun inclusions =>
        Text.join "" (inclusions.map inclusionLine))
    | .error reason => throw (.within ("reading " ++ path) ⟨reason, []⟩)
  else pure (.ok preprocessed)

/-- Carries out what the command line says; the result is the exit status. -/
def carryOut (found : Matches) : ExceptT Complaint m Nat := do
  let path := (found.positionals.head?).getD ""
  let command := PreprocessorCommand.ofFlags ((found.value? "cpp").getD "gcc")
    (found.valuesOf "cpp-flag") (found.valuesOf "include")
  match ← command.preprocessor.preprocessFile path with
  | .error fault => throw (.within ("preprocessing " ++ path) (.ofChain fault.chain))
  | .ok preprocessed =>
    match ← shown found path preprocessed with
    | .error failure =>
      Host.printErrorLine failure.message
      pure failure.exitStatus
    | .ok text =>
      match found.value? "output" with
      | none =>
        Host.print text
        pure 0
      | some output =>
        match ← Host.writeFile output text with
        | .ok () => pure 0
        | .error reason => throw ⟨reason, []⟩

/-- Runs the program; the result is its exit status. -/
def run (arguments : List String) : m Nat := do
  match form.read arguments with
  | .error stop => form.stop stop
  | .ok (found, _) =>
    match ← (carryOut found : ExceptT Complaint m Nat).run with
    | .ok status => pure status
    | .error complaint => do
      Host.printErrorLine ("Error: " ++ complaint.detailed)
      pure 1

end Run

end InlineMacro.Expander
