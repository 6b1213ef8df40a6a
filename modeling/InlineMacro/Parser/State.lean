import InlineMacro.Failure
import InlineMacro.Token.Annotation

/-!
# The parser's state

A parser takes tokens from the front of a list and knows which identifiers name types at the
moment. What it has taken stays taken when it fails. Loops and recursion run within a budget that
the number of tokens gives them; the two loops below are the only ones of the grammar.
-/

set_option autoImplicit false

namespace InlineMacro.Parser

/-- The tokens ahead, the names of types, and where the file ends. -/
structure State where
  tokens : List Token
  typedefs : List String
  fileEnd : Location
deriving Inhabited, Repr

def builtinTypedefs : List String := ["__builtin_va_list"]

namespace State

def ofTokens (tokens : List Token) (typedefs : List String := []) : State where
  tokens := Annotation.strip tokens
  typedefs := (builtinTypedefs ++ typedefs).eraseDups
  fileEnd := match tokens.getLast? with
    | some token => token.span.stop
    | none => .synthetic

def isTypedef (state : State) (name : String) : Bool :=
  state.typedefs.contains name

def location (state : State) : Location :=
  match state.tokens with
  | token :: _ => token.span.start
  | [] => state.fileEnd

def lexeme? (state : State) : Option Lexeme :=
  state.tokens.head?.map Token.lexeme

def secondLexeme? (state : State) : Option Lexeme :=
  state.tokens.tail.head?.map Token.lexeme

def isAtEnd (state : State) : Bool :=
  match state.lexeme? with
  | none | some .endOfFile => true
  | _ => false

def isAtMark (state : State) (mark : Mark) : Bool :=
  state.lexeme? == some (.mark mark)

def isAtKeyword (state : State) (keyword : Keyword) : Bool :=
  state.lexeme? == some (.keyword keyword)

def startsType (state : State) : Option Lexeme → Bool
  | some (.keyword keyword) =>
    [.kwVoid, .kwChar, .kwShort, .kwInt, .kwLong, .kwFloat, .kwDouble, .kwSigned, .kwUnsigned,
      .kwBool, .kwStruct, .kwUnion, .kwEnum, .kwConst, .kwVolatile, .kwRestrict].contains keyword
  | some (.identifier name) => state.isTypedef name
  | _ => false

def isAtType (state : State) : Bool := state.startsType state.lexeme?

def isAtParenthesizedType (state : State) : Bool :=
  state.isAtMark .leftParen && state.startsType state.secondLexeme?

/-- Whether a declaration starts here. A name in front of a colon is a label even if it names a
type. -/
def isAtDeclaration (state : State) : Bool :=
  match state.lexeme? with
  | some (.keyword keyword) =>
    [.kwTypedef, .kwExtern, .kwStatic, .kwAuto, .kwRegister, .kwInline].contains keyword ||
      state.isAtType
  | some (.identifier _) =>
    state.secondLexeme? != some (.mark .colon) && state.isAtType
  | _ => false

/-- Whether the parenthesis that stands here opens a nested declarator, not a parameter list. -/
def isAtNestedDeclarator (state : State) : Bool :=
  state.isAtMark .leftParen &&
    match state.secondLexeme? with
    | some (.mark .star) | some (.mark .leftParen) => true
    | some (.identifier name) => !state.isTypedef name
    | _ => false

end State

abbrev Parse := EStateM Failure State

def fault {α : Type} (location : Location) (cause : SyntaxFault) : Parse α :=
  throw (.syntactic location cause)

def location : Parse Location := return (← get).location

def spanFrom (start : Location) : Parse Span := return ⟨start, ← location⟩

/-- Takes the next token, if there is one. -/
def advance : Parse (Option Token) := do
  let state ← get
  match state.tokens with
  | [] => pure none
  | token :: rest =>
    set { state with tokens := rest }
    pure (some token)

/-- Fails where something else was wanted than a given token, or than the end of the tokens. -/
def unexpected {α : Type} (wanted : String) (found : Option Token) : Parse α := do
  match found with
  | some token => fault token.span.start (.expected wanted token.lexeme.spelling)
  | none => fault (← get).fileEnd (.endOfFile wanted)

/-- Takes the given mark if it stands here, and says whether it did. -/
def acceptMark (mark : Mark) : Parse Bool := do
  if (← get).isAtMark mark then
    discard advance
    pure true
  else pure false

/-- Takes the given keyword if it stands here, and says whether it did. -/
def acceptKeyword (keyword : Keyword) : Parse Bool := do
  if (← get).isAtKeyword keyword then
    discard advance
    pure true
  else pure false

/-- Takes the next token, which has to be the given one. -/
def expect (lexeme : Lexeme) (context : String) : Parse Unit := do
  let found ← advance
  if found.map Token.lexeme = some lexeme then pure ()
  else unexpected ("'" ++ lexeme.spelling ++ "' in " ++ context) found

def expectMark (mark : Mark) (context : String) : Parse Unit := expect (.mark mark) context

def expectKeyword (keyword : Keyword) (context : String) : Parse Unit :=
  expect (.keyword keyword) context

/-- Takes the next token, which has to be an identifier. -/
def expectIdentifier (context : String) : Parse String := do
  let found ← advance
  match found.map Token.lexeme with
  | some (.identifier name) => pure name
  | _ => unexpected ("identifier in " ++ context) found

/-- Takes an identifier if one stands here. -/
def acceptIdentifier : Parse (Option String) := do
  match (← get).lexeme? with
  | some (.identifier name) =>
    discard advance
    pure (some name)
  | _ => pure none

def addTypedef (name : String) : Parse Unit :=
  modify fun state =>
    if state.isTypedef name then state else { state with typedefs := name :: state.typedefs }

def removeTypedef (name : String) : Parse Unit :=
  modify fun state => { state with typedefs := state.typedefs.filter (· != name) }

/-- Runs a parser, and forgets the types that it has declared or hidden when it succeeds. -/
def inScope {α : Type} (parser : Parse α) : Parse α := do
  let outer := (← get).typedefs
  let result ← parser
  modify ({ · with typedefs := outer })
  pure result

def exhausted {α : Type} : Parse α := do
  fault (← location) .budgetExhausted

/-- Collects what a step yields, until it yields nothing or says that this was the last. -/
def collectWithin {α : Type} (step : Parse (Option (α × Bool))) : Nat → Parse (List α)
  | 0 => exhausted
  | budget + 1 => do
    match ← step with
    | none => pure []
    | some (item, false) => pure [item]
    | some (item, true) => return item :: (← collectWithin step budget)

/-- Repeats a step on its own result, until it yields nothing. -/
def iterateWithin {α : Type} (step : α → Parse (Option α)) : Nat → α → Parse α
  | 0, _ => exhausted
  | budget + 1, value => do
    match ← step value with
    | none => pure value
    | some value => iterateWithin step budget value

end InlineMacro.Parser
