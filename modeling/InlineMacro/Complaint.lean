import InlineMacro.Text.Lines

/-!
# Complaints

What a program says when it gives up: what it was doing, what went wrong there, and what was behind
that, down to the first cause.
-/

set_option autoImplicit false

namespace InlineMacro

/-- What went wrong, from the outermost account of it to the first cause. -/
structure Complaint where
  first : String
  causes : List String := []
deriving DecidableEq, Inhabited, Repr

namespace Complaint

def ofChain : List String → Complaint
  | [] => ⟨"", []⟩
  | first :: causes => ⟨first, causes⟩

def within (context : String) (complaint : Complaint) : Complaint :=
  ⟨context, complaint.first :: complaint.causes⟩

def oneLine (complaint : Complaint) : String :=
  Text.join ": " (complaint.first :: complaint.causes)

/-- A text behind a mark, its further lines as far to the right. -/
def indented (mark text : String) : String :=
  let indent := Text.repeated " " mark.length
  mark ++ Text.join ("\n" ++ indent)
    ((Text.splitBy (· == '\n') text.toList).map String.ofList)

def causeMark (number : Nat) : String :=
  let digits := toString number
  Text.repeated " " (5 - digits.length) ++ digits ++ ": "

def causeLines (causes : List String) : List String :=
  match causes with
  | [only] => [indented "    " only]
  | _ => causes.zipIdx.map fun (cause, number) => indented (causeMark number) cause

/-- The accounts in lines of their own. -/
def detailed (complaint : Complaint) : String :=
  if complaint.causes.isEmpty then complaint.first
  else
    complaint.first ++ "\n\nCaused by:\n" ++ Text.join "\n" (causeLines complaint.causes)

end Complaint

end InlineMacro
