import InlineMacro.Parser.Expression

/-!
# Statements and declarations

A block forgets at its end the type names that were declared or hidden in it, and so does a loop
whose head declares something.
-/

set_option autoImplicit false

namespace InlineMacro.Parser

/-! ## Declarations -/

def initDeclarator (given : Specifiers) (start : Location) (name : Option String) (type : CType)
    (initializer : Parse Initializer) : Parse Declaration := do
  match name with
  | none => fault (← location) .namelessDeclaration
  | some name =>
    if given.storage = some .typeAlias then addTypedef name else removeTypedef name
    let value ← if ← acceptMark .equal then some <$> initializer else pure none
    return {
      name := name
      type := type
      storage := given.storage
      isInline := given.isInline
      initializer := value
      span := ← spanFrom start }

/-- A declared name behind a comma; it does not repeat the body of its type. -/
def furtherDeclarator (given : Specifiers) (start : Location) (declarator : Parse Declarator)
    (initializer : Parse Initializer) : Parse (Option (Declaration × Bool)) := do
  if ← acceptMark .comma then
    let declared ← declarator
    let type := declared.typeFrom given.base.withoutBodies
    return some (← initDeclarator given start declared.name type initializer, true)
  else pure none

/-- The names of a declaration, of which the first has been read, and the semicolon. -/
def initDeclarators (given : Specifiers) (start : Location) (first : Declarator)
    (declarator : Parse Declarator) (initializer : Parse Initializer) (budget : Nat) :
    Parse (List Declaration) := do
  let leading ← initDeclarator given start first.name (first.typeFrom given.base) initializer
  let others ← collectWithin (furtherDeclarator given start declarator initializer) budget
  expectMark .semicolon "declaration"
  pure (leading :: others)

def localDeclarationForm (specifiers : Parse Specifiers) (declarator : Parse Declarator)
    (initializer : Parse Initializer) (budget : Nat) : Parse Statement := do
  let start ← location
  let given ← specifiers
  if ← acceptMark .semicolon then return .typeDefinition (← spanFrom start) given.base
  else
    let first ← declarator
    let declarations ← initDeclarators given start first declarator initializer budget
    return .declaration (← spanFrom start) declarations

/-! ## Statements -/

def conditionForm (expression : Parse Expr) (context : String) : Parse Expr := do
  expectMark .leftParen context
  let condition ← expression
  expectMark .rightParen context
  pure condition

def statementStep (statement : Parse Statement) : Parse (Option (Statement × Bool)) := do
  let state ← get
  if state.isAtMark .rightBrace || state.isAtEnd then pure none
  else return some (← statement, true)

def blockForm (statement : Parse Statement) (budget : Nat) : Parse Statement := do
  let start ← location
  expectMark .leftBrace "compound statement"
  let statements ← inScope do
    let statements ← collectWithin (statementStep statement) budget
    expectMark .rightBrace "compound statement"
    pure statements
  return .block (← spanFrom start) statements

def ifForm (expression : Parse Expr) (statement : Parse Statement) : Parse Statement := do
  let start ← location
  expectKeyword .kwIf "if statement"
  let condition ← conditionForm expression "if statement"
  let thenBranch ← statement
  let elseBranch ← if ← acceptKeyword .kwElse then some <$> statement else pure none
  return .ifElse (← spanFrom start) condition thenBranch elseBranch

def whileForm (expression : Parse Expr) (statement : Parse Statement) : Parse Statement := do
  let start ← location
  expectKeyword .kwWhile "while statement"
  let condition ← conditionForm expression "while statement"
  let body ← statement
  return .whileLoop (← spanFrom start) condition body

def doWhileForm (expression : Parse Expr) (statement : Parse Statement) : Parse Statement := do
  let start ← location
  expectKeyword .kwDo "do-while statement"
  let body ← statement
  expectKeyword .kwWhile "do-while statement"
  let condition ← conditionForm expression "do-while statement"
  expectMark .semicolon "do-while statement"
  return .doWhile (← spanFrom start) body condition

/-- What a loop starts with, and its semicolon. -/
def loopInitForm (expression : Parse Expr) (localDeclaration : Parse Statement) :
    Parse (Option Statement) := do
  if ← acceptMark .semicolon then pure none
  else if (← get).isAtDeclaration then some <$> localDeclaration
  else
    let start ← location
    let value ← expression
    expectMark .semicolon "for statement initializer"
    return some (.expression (← spanFrom start) value)

def optionalBefore (mark : Mark) (context : String) (expression : Parse Expr) :
    Parse (Option Expr) := do
  let value ← if (← get).isAtMark mark then pure none else some <$> expression
  expectMark mark context
  pure value

/-- A loop with a head of three parts. -/
def forForm (expression : Parse Expr) (localDeclaration statement : Parse Statement) :
    Parse Statement := do
  let start ← location
  expectKeyword .kwFor "for statement"
  expectMark .leftParen "for statement"
  inScope do
    let init ← loopInitForm expression localDeclaration
    let condition ← optionalBefore .semicolon "for statement condition" expression
    let update ← optionalBefore .rightParen "for statement" expression
    let body ← statement
    return .forLoop (← spanFrom start) init condition update body

def switchForm (expression : Parse Expr) (statement : Parse Statement) : Parse Statement := do
  let start ← location
  expectKeyword .kwSwitch "switch statement"
  let subject ← conditionForm expression "switch statement"
  let body ← statement
  return .switch (← spanFrom start) subject body

def caseForm (conditional : Parse Expr) (statement : Parse Statement) : Parse Statement := do
  let start ← location
  discard advance
  let value ← conditional
  expectMark .colon "case label"
  let labelled ← statement
  return .caseLabel (← spanFrom start) value labelled

/-- The label for what no other label takes. -/
def defaultForm (statement : Parse Statement) : Parse Statement := do
  let start ← location
  discard advance
  expectMark .colon "default label"
  let labelled ← statement
  return .defaultLabel (← spanFrom start) labelled

def returnForm (expression : Parse Expr) : Parse Statement := do
  let start ← location
  discard advance
  let value ← optionalBefore .semicolon "return statement" expression
  return .returnStatement (← spanFrom start) value

def gotoForm : Parse Statement := do
  let start ← location
  discard advance
  let label ← expectIdentifier "goto statement"
  expectMark .semicolon "goto statement"
  return .gotoStatement (← spanFrom start) label

def labelForm (label : String) (statement : Parse Statement) : Parse Statement := do
  let start ← location
  discard advance
  discard advance
  let labelled ← statement
  return .labelled (← spanFrom start) label labelled

/-- A statement that consists of a keyword. -/
def wordForm (context : String) (build : Span → Statement) : Parse Statement := do
  let start ← location
  discard advance
  expectMark .semicolon context
  return build (← spanFrom start)

def declarationOrExpressionForm (expression : Parse Expr) (localDeclaration : Parse Statement) :
    Parse Statement := do
  let state ← get
  if state.isAtDeclaration then localDeclaration
  else
    let value ← expression
    expectMark .semicolon "expression statement"
    return .expression (← spanFrom state.location) value

/-- A statement, told by its first token. -/
def statementForm (expression conditional : Parse Expr)
    (localDeclaration block statement : Parse Statement) : Parse Statement := do
  let state ← get
  match state.lexeme? with
  | none => fault state.location (.endOfFile "statement")
  | some (.mark .leftBrace) => block
  | some (.keyword .kwIf) => ifForm expression statement
  | some (.keyword .kwWhile) => whileForm expression statement
  | some (.keyword .kwDo) => doWhileForm expression statement
  | some (.keyword .kwFor) => forForm expression localDeclaration statement
  | some (.keyword .kwSwitch) => switchForm expression statement
  | some (.keyword .kwCase) => caseForm conditional statement
  | some (.keyword .kwDefault) => defaultForm statement
  | some (.keyword .kwBreak) => wordForm "break statement" .breakStatement
  | some (.keyword .kwContinue) => wordForm "continue statement" .continueStatement
  | some (.keyword .kwReturn) => returnForm expression
  | some (.keyword .kwGoto) => gotoForm
  | some (.mark .semicolon) =>
    discard advance
    return .empty (← spanFrom state.location)
  | some (.keyword .kwAsm) => fault state.location (.unsupported "Inline assembly")
  | some (.identifier name) =>
    if state.secondLexeme? == some (.mark .colon) then labelForm name statement
    else declarationOrExpressionForm expression localDeclaration
  | some _ => declarationOrExpressionForm expression localDeclaration

end InlineMacro.Parser
