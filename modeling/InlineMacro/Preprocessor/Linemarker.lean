import InlineMacro.Text.Decimal
import InlineMacro.Text.Lines

/-!
# Linemarkers

A preprocessor writes lines into its output that say where the text behind them comes from: a
number sign, the number of the line, the name of the file in quotes, and flags. In the name a
backslash stands before each backslash and each quote.
-/

set_option autoImplicit false

namespace InlineMacro

/-- What a linemarker says about the line behind it. -/
structure Linemarker where
  line : Nat
  file : String
  flags : List Nat
deriving DecidableEq, Inhabited, Repr

namespace Linemarker

def entersFile (marker : Linemarker) : Bool := marker.flags.contains 1

def returnsToFile (marker : Linemarker) : Bool := marker.flags.contains 2

def numberBound : Nat := 18446744073709551616

def flagBound : Nat := 256

/-- The text up to the quote that closes a name, as it is written, and what follows the quote. A
backslash cannot stand at the end of a line. -/
def quoted? : List Char → Option (List Char × List Char)
  | [] => none
  | '"' :: rest => some ([], rest)
  | ['\\'] => none
  | '\\' :: escaped :: rest =>
    if escaped = '\n' then none
    else (quoted? rest).map fun (name, rest) => ('\\' :: escaped :: name, rest)
  | character :: rest => (quoted? rest).map fun (name, rest) => (character :: name, rest)

/-- A name without the backslashes that stand before backslashes and quotes. -/
def unescaped : List Char → List Char
  | [] => []
  | '\\' :: '\\' :: rest => '\\' :: unescaped rest
  | '\\' :: '"' :: rest => '"' :: unescaped rest
  | character :: rest => character :: unescaped rest

def startsBlank (characters : List Char) : Bool :=
  (characters.head?).any Text.isBlank

/-- The flags behind a name. One that is out of bounds says nothing. -/
def flags? (characters : List Char) : Option (List Nat) :=
  let flags := Text.words characters
  if (characters.isEmpty || startsBlank characters) && flags.all (·.all Text.isDecimal) then
    some (flags.filterMap (Text.boundedDecimal? flagBound))
  else none

def withoutLineWord (characters : List Char) : List Char :=
  match characters with
  | 'l' :: 'i' :: 'n' :: 'e' :: rest => if startsBlank rest then Text.trimStart rest else characters
  | _ => characters

/-- The number at the start, the name in quotes behind it, and the flags. -/
def afterSign? (characters : List Char) : Option Linemarker := do
  let (digits, rest) := (withoutLineWord (Text.trimStart characters)).span Text.isDecimal
  if !startsBlank rest then none
  else
    match Text.trimStart rest with
    | '"' :: rest =>
      let (name, rest) ← quoted? rest
      let flags ← flags? rest
      let line ← Text.boundedDecimal? numberBound digits
      pure ⟨line, String.ofList (unescaped name), flags⟩
    | _ => none

def parse? (line : String) : Option Linemarker :=
  match Text.trimStart line.toList with
  | '#' :: rest => afterSign? rest
  | _ => none

end Linemarker

end InlineMacro
