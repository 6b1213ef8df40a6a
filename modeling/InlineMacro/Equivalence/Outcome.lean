import InlineMacro.Text.Difference

/-!
# Outcomes of comparisons

What came of comparing a program with its transformation, and the report about many of them.
-/

set_option autoImplicit false

namespace InlineMacro

/-- What came of a comparison. -/
inductive Verdict where
  | passed
  | differs
  | skipped
  | timedOut
  | notTransformed
  | notBuilt
  | knownFailure
  | unexpectedPass
deriving DecidableEq, Inhabited, Repr

namespace Verdict

def isSuccess : Verdict → Bool
  | passed | knownFailure | skipped => true
  | _ => false

def sign : Verdict → String
  | passed | knownFailure => "✓"
  | skipped => "⊘"
  | timedOut => "⏱"
  | _ => "✗"

def label : Verdict → String
  | passed => "PASSED"
  | differs => "BEHAVIOR DIFFERS"
  | skipped => "SKIPPED"
  | timedOut => "TIMEOUT"
  | notTransformed => "TRANSFORM ERROR"
  | notBuilt => "BUILD ERROR"
  | knownFailure => "EXPECTED FAIL"
  | unexpectedPass => "UNEXPECTED PASS"

end Verdict

/-- What came of comparing a program: with what was observed before and after, if it was. -/
structure Outcome where
  name : String
  verdict : Verdict
  message : Option String := none
  actual : Option String := none
  expected : Option String := none
  milliseconds : Nat := 0
deriving Inhabited, Repr

def indentLines (text : String) (count : Nat) : String :=
  Text.join "\n" ((Text.lines text).map (Text.repeated " " count ++ ·))

def differenceLimit : Nat := 40

def differenceText (title old new : String) : String :=
  "\n  " ++ title ++ "\n" ++
    Text.join "" (((Text.lines (Difference.text "original" "macroized" old new)).take
      differenceLimit).map fun line => "  " ++ line ++ "\n")

namespace Outcome

def headLine (outcome : Outcome) : String :=
  outcome.verdict.sign ++ " " ++ outcome.name ++ " " ++ outcome.verdict.label ++ " (" ++
    toString outcome.milliseconds ++ " ms)\n"

/-- The message, which is shown for what is not as it should be, or if more is wanted. -/
def messageText (isVerbose : Bool) (outcome : Outcome) : String :=
  match outcome.message with
  | some message =>
    if isVerbose || !outcome.verdict.isSuccess then indentLines message 2 ++ "\n" else ""
  | none => ""

/-- What was observed, if more is wanted. -/
def actualText (isVerbose : Bool) (outcome : Outcome) : String :=
  match outcome.actual with
  | some actual =>
    if isVerbose && !actual.isEmpty then "  Output:\n" ++ indentLines actual 4 ++ "\n" else ""
  | none => ""

/-- How what was observed differs, for what is not as it should be. -/
def mismatchText (outcome : Outcome) : String :=
  match outcome.expected, outcome.actual with
  | some expected, some actual =>
    if !outcome.verdict.isSuccess && expected != actual then
      differenceText "Output mismatch:" expected actual
    else ""
  | _, _ => ""

def text (isVerbose : Bool) (outcome : Outcome) : String :=
  outcome.headLine ++ outcome.messageText isVerbose ++ outcome.actualText isVerbose ++
    outcome.mismatchText

end Outcome

/-! ## Summaries -/

/-- How many outcomes there are of each kind. -/
structure Summary where
  total : Nat := 0
  passed : Nat := 0
  failed : Nat := 0
  skipped : Nat := 0
  knownFailures : Nat := 0
  notFound : Nat := 0
  milliseconds : Nat := 0
deriving DecidableEq, Inhabited, Repr

namespace Summary

def count (summary : Summary) : Verdict → Summary
  | .passed => { summary with passed := summary.passed + 1 }
  | .skipped => { summary with skipped := summary.skipped + 1 }
  | .knownFailure => { summary with knownFailures := summary.knownFailures + 1 }
  | _ => { summary with failed := summary.failed + 1 }

def add (summary : Summary) (outcome : Outcome) : Summary :=
  { summary.count outcome.verdict with
    total := summary.total + 1
    milliseconds := summary.milliseconds + outcome.milliseconds }

def problems (summary : Summary) : Nat := summary.failed + summary.notFound

def exitStatus (summary : Summary) : Nat := if summary.problems > 0 then 1 else 0

def width : Nat := 60

def labelColumn (label : String) : String :=
  label ++ ":" ++ Text.repeated " " (15 - label.length)

def row (label : String) (count : Nat) (isShown : Bool) : String :=
  if isShown then labelColumn label ++ toString count ++ "\n" else ""

def centred (text : String) : String :=
  let left := (width - text.length) / 2
  Text.repeated " " left ++ text ++ Text.repeated " " (width - text.length - left)

def secondsText (milliseconds : Nat) : String :=
  let hundredths := (milliseconds + 5) / 10
  let rest := hundredths % 100
  toString (hundredths / 100) ++ "." ++ (if rest < 10 then "0" else "") ++ toString rest ++ "s"

def verdictText (summary : Summary) : String :=
  if summary.problems > 0 then toString summary.problems ++ " tests had issues"
  else if summary.total = 0 then "No tests were run!"
  else "All programs behave the same after macroization"

def text (summary : Summary) : String :=
  let rule := Text.repeated "=" width
  "\n" ++ rule ++ "\n" ++ centred "Equivalence results" ++ "\n" ++ rule ++ "\n" ++
    row "Total" summary.total true ++
    row "Passed" summary.passed true ++
    row "Failed" summary.failed (summary.failed > 0) ++
    row "Skipped" summary.skipped (summary.skipped > 0) ++
    row "Known failures" summary.knownFailures (summary.knownFailures > 0) ++
    row "Not found" summary.notFound (summary.notFound > 0) ++
    labelColumn "Duration" ++ secondsText summary.milliseconds ++ "\n" ++
    rule ++ "\n\n" ++ summary.verdictText ++ "\n"

end Summary

end InlineMacro
