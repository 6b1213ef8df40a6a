import InlineMacro.Host
import InlineMacro.Preprocessor.Command

/-!
# The preprocessor

Preprocessing a file and expanding the macros of a text, and how a command does both.
-/

set_option autoImplicit false

namespace InlineMacro

/-- What is asked of a preprocessor. -/
structure Preprocessor (m : Type → Type) where
  preprocessFile : String → m (Except PreprocessorFault String)
  expand : String → m (Except PreprocessorFault String)

namespace PreprocessorCommand

variable {m : Type → Type} [Monad m] [Host m]

/-- Runs the command. What it writes counts only if it reports success. -/
def run (command : PreprocessorCommand) (arguments : List String) (input : Option String) :
    m (Except PreprocessorFault String) := do
  match ← Host.runProgram { program := command.program, arguments, input } with
  | .error reason => pure (.error (.launch command.program reason))
  | .ok result =>
    if result.isSuccess then pure (.ok result.outputText)
    else
      let errors := String.ofList (Text.trimEnd result.errorText.toList)
      pure (.error (.failed command.program result.ending.status? errors))

def preprocessor (command : PreprocessorCommand) : Preprocessor m where
  preprocessFile path := command.run (command.fileArguments path) none
  expand text := command.run textArguments (some text)

end PreprocessorCommand

end InlineMacro
