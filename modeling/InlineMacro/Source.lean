/-!
# Places in the source

A location is a file, a line and a column; a span is the stretch between two locations. What
the program makes up itself stands at a location of its own, which no file has.
-/

set_option autoImplicit false

namespace InlineMacro

/-- A place in a file. Lines and columns count from one; a column counts characters. -/
structure Location where
  file : String
  line : Nat
  column : Nat
deriving DecidableEq, Inhabited, Repr

namespace Location

def syntheticFile : String := "<generated>"

def synthetic : Location := ⟨syntheticFile, 0, 0⟩

def text (location : Location) : String :=
  location.file ++ ":" ++ toString location.line ++ ":" ++ toString location.column

end Location

/-- A stretch of source text, from its first character to the one after its last. -/
structure Span where
  start : Location
  stop : Location
deriving DecidableEq, Inhabited, Repr

namespace Span

def point (location : Location) : Span := ⟨location, location⟩

def synthetic : Span := .point .synthetic

def isSynthetic (span : Span) : Bool := span.start.file == Location.syntheticFile

def file (span : Span) : String := span.start.file

/-- The start, and the end column too when the span is a proper stretch of one line. -/
def text (span : Span) : String :=
  if span.start.file = span.stop.file ∧ span.start.line = span.stop.line ∧
      span.start ≠ span.stop then
    span.start.text ++ "-" ++ toString span.stop.column
  else span.start.text

end Span

end InlineMacro
