import InlineMacro.Configuration
import InlineMacro.Path

/-!
# Test suites

The programs whose behaviour is compared before and after the transformation, and how a suite is read
from JSON. Members that are not known say nothing; those that are can stand in an array in order too.
-/

set_option autoImplicit false

namespace InlineMacro

/-- A program of a suite: its file, what it should print, and the settings it is transformed with. -/
structure TestProgram where
  file : String
  expected : Option String := none
  description : Option String := none
  settings : Option Configuration := none
deriving DecidableEq, Inhabited, Repr

namespace TestProgram

def name (program : TestProgram) : String := (Path.stem? program.file).getD ""

def configuration (compiler : String) (program : TestProgram) : Configuration :=
  { program.settings.getD {} with usesPreprocessor := true, preprocessor := compiler }

end TestProgram

/-- A program whose behaviour is known to change. -/
structure KnownFailure where
  file : String
  description : Option String := none
deriving DecidableEq, Inhabited, Repr

/-- A suite of programs. -/
structure TestSuite where
  programs : List TestProgram := []
  knownFailures : List KnownFailure := []
deriving Inhabited

open Json.Decoder in
def TestProgram.form : RecordForm TestProgram where
  title := "struct TestCase"
  standard := { file := "" }
  fields := [
    { name := "file", isRequired := true, isRequiredInArray := true,
      read := fun program => do return { program with file := ← path } },
    { name := "expected", isRequiredInArray := true,
      read := fun program => do return { program with expected := ← nullable text } },
    { name := "description", isRequiredInArray := true,
      read := fun program => do return { program with description := ← nullable text } },
    { name := "macroize",
      read := fun program => do
        return { program with settings := ← nullable Configuration.form.decoder } }]

open Json.Decoder in
def KnownFailure.form : RecordForm KnownFailure where
  title := "struct KnownFailure"
  standard := { file := "" }
  fields := [
    { name := "file", isRequired := true, isRequiredInArray := true,
      read := fun failure => do return { failure with file := ← path } },
    { name := "description", isRequiredInArray := true,
      read := fun failure => do return { failure with description := ← nullable text } }]

namespace TestSuite

open Json.Decoder in
def form : RecordForm TestSuite where
  title := "struct TestConfig"
  standard := {}
  fields := [
    { name := "tests", isRequired := true, isRequiredInArray := true,
      read := fun suite => do
        return { suite with programs := ← list TestProgram.form.decoder } },
    { name := "known_failures",
      read := fun suite => do
        return { suite with knownFailures := ← list KnownFailure.form.decoder } }]

def parse (source : String) : Except Json.Fault TestSuite := form.decoder.decode source

end TestSuite

end InlineMacro
