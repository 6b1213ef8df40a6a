import InlineMacro.Failure

/-!
# The preprocessor's command line

How the preprocessor is called, and how it can fail. Its options may be written with underscores
in the place of leading dashes, so that they can be told from the program's own.
-/

set_option autoImplicit false

namespace InlineMacro

/-- A preprocessor with its options and the directories in which it looks for headers. -/
structure PreprocessorCommand where
  program : String := "gcc"
  options : List String := []
  includePaths : List String := []
deriving DecidableEq, Inhabited, Repr

namespace PreprocessorCommand

def optionOf (flag : String) : String :=
  let underscores := flag.toList.takeWhile (· == '_')
  String.ofList (underscores.map (fun _ => '-') ++ flag.toList.drop underscores.length)

def ofFlags (program : String) (flags includePaths : List String) : PreprocessorCommand :=
  ⟨program, flags.map optionOf, includePaths⟩

/-- The options of every call for a file. The text is to be as plain as it can be, so the program
does not say that it is a compiler with extensions. -/
def baseOptions : List String := ["-E", "-U__GNUC__"]

def fileArguments (command : PreprocessorCommand) (path : String) : List String :=
  baseOptions ++ command.options ++ command.includePaths.map ("-I" ++ ·) ++ [path]

def textArguments : List String := ["-E", "-"]

end PreprocessorCommand

/-! ## Failures -/

/-- Why the preprocessor gave no text. -/
inductive PreprocessorFault where
  | launch (program reason : String)
  | inputOutput (program reason : String)
  | failed (program : String) (status : Option Int) (errors : String)
deriving DecidableEq, Inhabited, Repr

namespace PreprocessorFault

def endingText : Option Int → String
  | some status => "status " ++ toString status
  | none => "a signal"

def message : PreprocessorFault → String
  | launch program reason => "failed to launch '" ++ program ++ "': " ++ reason
  | inputOutput program reason => "I/O error talking to '" ++ program ++ "': " ++ reason
  | failed program status errors =>
    "'" ++ program ++ "' exited with " ++ endingText status ++ ": " ++ errors

/-- The fault's message and that of what caused it, if something did. -/
def chain : PreprocessorFault → List String
  | launch program reason => [(launch program reason).message, reason]
  | inputOutput program reason => [(inputOutput program reason).message, reason]
  | failed program status errors => [(failed program status errors).message]

def toFailure : PreprocessorFault → Failure
  | launch program reason => .preprocessor program none reason
  | inputOutput program reason => .preprocessor program none reason
  | failed program status errors => .preprocessor program status errors

end PreprocessorFault

end InlineMacro
