import InlineMacro.Text.Alphabet

/-!
# Lines and words

Cutting a text into lines and words, and trimming it. The functions work on lists of characters;
`lines` and `trimmed` are the same cuts for whole strings.
-/

set_option autoImplicit false

namespace InlineMacro.Text

def trimStart (characters : List Char) : List Char :=
  characters.dropWhile isBlank

def trimEnd (characters : List Char) : List Char :=
  (characters.reverse.dropWhile isBlank).reverse

def trim (characters : List Char) : List Char :=
  trimEnd (trimStart characters)

def splitBy (isSeparator : Char → Bool) : List Char → List (List Char)
  | [] => [[]]
  | character :: rest =>
    match splitBy isSeparator rest with
    | [] => [[character]]
    | piece :: pieces =>
      if isSeparator character then [] :: piece :: pieces
      else (character :: piece) :: pieces

def words (characters : List Char) : List (List Char) :=
  (splitBy isBlank characters).filter fun word => !word.isEmpty

def splitAtMost (isSeparator : Char → Bool) : Nat → List Char → List (List Char)
  | 0, _ => []
  | 1, characters => [characters]
  | limit + 2, characters =>
    match characters.span (fun character => !isSeparator character) with
    | (piece, []) => [piece]
    | (piece, _ :: rest) => piece :: splitAtMost isSeparator (limit + 1) rest

/-- A carriage return right before a line feed belongs to the line's end. -/
def dropCarriageReturn (line : List Char) : List Char :=
  match line.getLast? with
  | some '\r' => line.dropLast
  | _ => line

/-- The pieces of a text at its line feeds, each but the last without the carriage return before
its line feed. A last piece that is empty is no line. -/
def linesOfPieces : List (List Char) → List (List Char)
  | [] => []
  | [last] => if last.isEmpty then [] else [last]
  | line :: rest => dropCarriageReturn line :: linesOfPieces rest

def lines (text : String) : List String :=
  (linesOfPieces (splitBy (· == '\n') text.toList)).map String.ofList

def trimmed (text : String) : String :=
  String.ofList (trim text.toList)

/-- The texts one after another, with the separator between neighbours. -/
def join (separator : String) : List String → String
  | [] => ""
  | [text] => text
  | text :: texts => text ++ separator ++ join separator texts

def repeated (text : String) : Nat → String
  | 0 => ""
  | count + 1 => text ++ repeated text count

def endsLine (text : String) : Bool :=
  text.toList.getLast? == some '\n'

end InlineMacro.Text
