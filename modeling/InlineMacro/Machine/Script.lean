/-!
# Shell scripts

The syntax of the shell's language as small scripts use it: words with their quotes and expansions,
redirections, lists and pipelines, and the compound commands.
-/

set_option autoImplicit false

namespace InlineMacro.Machine

/-! ## Words -/

/-- How an expansion uses the value of a parameter. What stands in for a value does so when the
parameter is unset, or also when it is empty. -/
inductive Use where
  | value
  | length
  | standIn (countsEmpty : Bool)
  | assigned (countsEmpty : Bool)
  | required (countsEmpty : Bool)
  | replaced (countsEmpty : Bool)
  | withoutStart (isLongest : Bool)
  | withoutEnd (isLongest : Bool)
  | malformed
deriving DecidableEq, Inhabited, Repr

/-- A piece of a word. What an expansion without quotes yields is split into fields. -/
inductive Piece where
  | text (content : String) (isQuoted : Bool)
  | parameter (name : String) (use : Use) (argument : List Piece) (isQuoted : Bool)
  | command (line : Nat) (script : String) (isQuoted : Bool)
  | arithmetic (expression : List Piece) (isQuoted : Bool)
deriving Inhabited, Repr

def Piece.isQuoted : Piece → Bool
  | text _ isQuoted | parameter _ _ _ isQuoted => isQuoted
  | command _ _ isQuoted | arithmetic _ isQuoted => isQuoted

def isNameCharacter (character : Char) : Bool := character.isAlphanum || character == '_'

def isName (text : String) : Bool :=
  !text.isEmpty && text.toList.all isNameCharacter && !text.toList.head?.any Char.isDigit

abbrev Word := List Piece

namespace Word

/-- Puts a piece in front; texts of one kind flow together. -/
def push (piece : Piece) (word : Word) : Word :=
  match piece, word with
  | .text first firstQuoted, .text second secondQuoted :: rest =>
    if firstQuoted = secondQuoted then .text (first ++ second) firstQuoted :: rest
    else piece :: word
  | _, _ => piece :: word

def plain? : Word → Option String
  | [.text content false] => some content
  | _ => none

/-- The text of a word without expansions. -/
def content (word : Word) : String :=
  word.foldl (fun content piece =>
    match piece with
    | .text more _ => content ++ more
    | _ => content) ""

/-- The name and the value of a word that assigns a variable. -/
def assignment? : Word → Option (String × Word)
  | .text content false :: rest =>
    let name := content.toList.takeWhile isNameCharacter
    match content.toList.drop name.length with
    | '=' :: value =>
      if isName (String.ofList name) then
        some (String.ofList name, push (.text (String.ofList value) false) rest)
      else none
    | _ => none
  | _ => none

end Word

/-! ## Commands -/

/-- What a redirection does with its target; a document is its target. -/
inductive Direction where
  | read
  | write
  | append
  | duplicate
  | document
deriving DecidableEq, Inhabited, Repr

/-- A redirection of a descriptor. -/
structure Redirection where
  descriptor : Nat
  direction : Direction
  target : Word
deriving Inhabited, Repr

/-- A command, with the number of its line where it is told to the reader. -/
inductive Command where
  | nothing
  | simple (line : Nat) (words : List Word) (redirections : List Redirection)
  | redirected (line : Nat) (command : Command) (redirections : List Redirection)
  | definition (name : String) (body : Command)
  | sequence (first second : Command)
  | background (command : Command)
  | both (first second : Command)
  | either (first second : Command)
  | negation (command : Command)
  | pipe (first second : Command)
  | subshell (command : Command)
  | conditional (condition thenPart elsePart : Command)
  | forEach (line : Nat) (name : String) (words : Option (List Word)) (body : Command)
  | repeated (isUntil : Bool) (condition body : Command)
  | choice (line : Nat) (subject : Word) (arms : List (List Word × Command))
deriving Inhabited

/-- Why a script cannot be read on, and the number of the line where that shows. -/
structure ScriptFault where
  line : Nat
  message : String
deriving DecidableEq, Inhabited, Repr

/-- A script: the commands up to a fault, if there is one. What stands before a fault is run. -/
structure Script where
  commands : List Command
  fault : Option ScriptFault := none
deriving Inhabited

end InlineMacro.Machine
