import InlineMacro.Token

/-!
# Compiler annotations

Attributes, assembler names behind a declarator, and the marker for extensions say nothing that
the grammar needs, so they are taken out of the token list before it is parsed. An `asm` that
follows no declarator is kept, and the parser refuses it.
-/

set_option autoImplicit false

namespace InlineMacro.Annotation

/-- Where the filter stands: outside annotations, behind the word of one, or in its parentheses. -/
inductive Mode where
  | outside
  | announced
  | inside (depth : Nat)
deriving DecidableEq, Repr

def attributeWords : List String := ["__attribute__", "__attribute", "__declspec"]

def endsDeclarator : Lexeme → Bool
  | .mark .rightParen | .mark .rightBracket | .identifier _ => true
  | _ => false

/-- The mode behind a token that is no part of an annotation so far; `none` if the token is kept.
What was kept last decides whether `asm` names a declared thing. -/
def outsideMode (last : Option Lexeme) : Lexeme → Option Mode
  | .identifier name =>
    if name == "__extension__" then some .outside
    else if attributeWords.contains name then some .announced
    else none
  | .keyword .kwAsm => if last.any endsDeclarator then some .announced else none
  | _ => none

/-- The mode behind a token that is taken out; `none` if the token is kept. -/
def nextMode (last : Option Lexeme) : Mode → Lexeme → Option Mode
  | .outside, lexeme => outsideMode last lexeme
  | .announced, .keyword .kwVolatile => some .announced
  | .announced, .keyword .kwInline => some .announced
  | .announced, .mark .leftParen => some (.inside 1)
  | .announced, lexeme => outsideMode last lexeme
  | .inside depth, .mark .leftParen => some (.inside (depth + 1))
  | .inside depth, .mark .rightParen =>
    some (if depth = 1 then .outside else .inside (depth - 1))
  | .inside depth, _ => some (.inside depth)

def stripFrom (last : Option Lexeme) (mode : Mode) : List Token → List Token
  | [] => []
  | token :: rest =>
    match nextMode last mode token.lexeme with
    | some mode => stripFrom last mode rest
    | none => token :: stripFrom (some token.lexeme) .outside rest

def strip (tokens : List Token) : List Token := stripFrom none .outside tokens

end InlineMacro.Annotation
