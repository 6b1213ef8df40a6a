import InlineMacro.Json.Fault
import InlineMacro.Source

/-!
# What can go wrong

The causes for which the program gives up on an input, and the one wording of each. A cause keeps
what its message needs, so that a statement about failures never has to look into a text.
-/

set_option autoImplicit false

namespace InlineMacro

/-- What is wrong with the characters at a location. -/
inductive LexicalFault where
  | invalidHexLiteral
  | emptyCharacterLiteral
  | unterminatedLiteral (what : String)
  | unterminatedComment
  | unexpectedCharacter (character : Char)
  | invalidLineNumber (directive : String)
  | unexpectedDirective (word : String)
  | described (text : String)
deriving DecidableEq, Inhabited, Repr

def LexicalFault.message : LexicalFault → String
  | invalidHexLiteral => "Invalid hex literal"
  | emptyCharacterLiteral => "Empty character literal"
  | unterminatedLiteral what => "Unterminated " ++ what ++ " literal"
  | unterminatedComment => "Unterminated block comment"
  | unexpectedCharacter character => "Unexpected character: " ++ character.toString
  | invalidLineNumber directive => "Invalid line number in '" ++ directive ++ "'"
  | unexpectedDirective word =>
    "Unexpected directive '#" ++ word ++ "' (did you forget to preprocess first?)"
  | described text => text

/-- What is wrong with the tokens at a location. A parser that runs out of its budget says so with
a fault of its own; the budget is chosen so that no token list brings it about. -/
inductive SyntaxFault where
  | expected (wanted found : String)
  | endOfFile (wanted : String)
  | unsupported (construct : String)
  | namelessFunction
  | namelessDeclaration
  | storageInTypeName
  | nameInTypeName (name : String)
  | budgetExhausted
  | described (text : String)
deriving DecidableEq, Inhabited, Repr

def SyntaxFault.message : SyntaxFault → String
  | expected wanted found => "Expected " ++ wanted ++ ", found '" ++ found ++ "'"
  | endOfFile wanted => "Unexpected end of file, expected " ++ wanted
  | unsupported construct => construct ++ " is not supported"
  | namelessFunction => "Function definition without a name"
  | namelessDeclaration => "Declaration without a declarator name"
  | storageInTypeName => "Storage class in type name"
  | nameInTypeName name => "Unexpected name '" ++ name ++ "' in type name"
  | budgetExhausted => "Nesting budget exhausted"
  | described text => text

/-- Why an input is given up. A counter that leaves its type stops the program where it happens. -/
inductive Failure where
  | lexical (location : Location) (fault : LexicalFault)
  | syntactic (location : Location) (fault : SyntaxFault)
  | preprocessor (program : String) (exitCode : Option Int) (output : String)
  | unsupported (function construct : String)
  | inputOutput (message : String)
  | configuration (fault : Json.Fault)
  | internal (message : String)
  | overflow
deriving DecidableEq, Inhabited, Repr

namespace Failure

def endingText : Option Int → String
  | some code => " with exit status " ++ toString code
  | none => " to launch"

def message : Failure → String
  | lexical location fault => "Lexical error at " ++ location.text ++ ": " ++ fault.message
  | syntactic location fault => "Parse error at " ++ location.text ++ ": " ++ fault.message
  | preprocessor program exitCode output =>
    "Preprocessor '" ++ program ++ "' failed" ++ endingText exitCode ++ ": " ++ output
  | unsupported function construct =>
    "Function '" ++ function ++ "' contains unsupported construct: " ++ construct
  | inputOutput message => "IO error: " ++ message
  | configuration fault => "IO error: invalid configuration: " ++ fault.message
  | internal message => "Internal error: " ++ message
  | overflow => "attempt to add with overflow"

/-- The place in the source that a failure points at, if it points at one. -/
def location? : Failure → Option Location
  | lexical location _ => some location
  | syntactic location _ => some location
  | _ => none

def isSyntaxError (failure : Failure) : Bool :=
  failure.location?.isSome

def exitStatus : Failure → Nat
  | overflow => 101
  | _ => 1

end Failure

end InlineMacro
