import InlineMacro.Parser.Declarator

/-!
# Expressions and initializers

One production for each level of binding, from a list of expressions between commas down to names
and literals.
-/

set_option autoImplicit false

namespace InlineMacro.Parser

def spanBetween (first last : Expr) : Span := ⟨first.span.start, last.span.stop⟩

/-! ## Operators by level -/

/-- The binary operators that a mark can stand for, with the level on which they group: operators
of a higher level bind tighter. -/
def binaryOperator? : Mark → Option (Nat × BinaryOperator)
  | .pipePipe => some (0, .logicalOr)
  | .ampersandAmpersand => some (1, .logicalAnd)
  | .pipe => some (2, .bitOr)
  | .caret => some (3, .bitXor)
  | .ampersand => some (4, .bitAnd)
  | .equalEqual => some (5, .equal)
  | .bangEqual => some (5, .notEqual)
  | .less => some (6, .less)
  | .greater => some (6, .greater)
  | .lessEqual => some (6, .lessEqual)
  | .greaterEqual => some (6, .greaterEqual)
  | .leftShift => some (7, .leftShift)
  | .rightShift => some (7, .rightShift)
  | .plus => some (8, .add)
  | .minus => some (8, .sub)
  | .star => some (9, .mul)
  | .slash => some (9, .div)
  | .percent => some (9, .mod)
  | _ => none

def binaryLevels : Nat := 10

def binaryOperatorAt (level : Nat) (state : State) : Option BinaryOperator :=
  match state.lexeme? with
  | some (.mark mark) =>
    match binaryOperator? mark with
    | some (own, operator) => if own = level then some operator else none
    | none => none
  | _ => none

def assignmentOperator? : Mark → Option BinaryOperator
  | .equal => some .assign
  | .plusEqual => some .addAssign
  | .minusEqual => some .subAssign
  | .starEqual => some .mulAssign
  | .slashEqual => some .divAssign
  | .percentEqual => some .modAssign
  | .ampersandEqual => some .bitAndAssign
  | .pipeEqual => some .bitOrAssign
  | .caretEqual => some .bitXorAssign
  | .leftShiftEqual => some .leftShiftAssign
  | .rightShiftEqual => some .rightShiftAssign
  | _ => none

/-- The operator in front of an operand that a mark stands for. -/
def unaryOperator? : Mark → Option UnaryOperator
  | .plus => some .plus
  | .minus => some .minus
  | .bang => some .logicalNot
  | .tilde => some .bitNot
  | .star => some .dereference
  | .ampersand => some .addressOf
  | .plusPlus => some .preIncrement
  | .minusMinus => some .preDecrement
  | _ => none

/-- Takes the mark that stands here if it stands for something. -/
def acceptMarkAs {α : Type} (meaning : Mark → Option α) : Parse (Option α) := do
  match (← get).lexeme? with
  | some (.mark mark) =>
    match meaning mark with
    | some value =>
      discard advance
      pure (some value)
    | none => pure none
  | _ => pure none

/-! ## Productions -/

def furtherPart (assignment : Parse Expr) : Parse (Option (Expr × Bool)) := do
  if ← acceptMark .comma then return some (← assignment, true) else pure none

/-- Expressions between commas; a single one stands for itself. -/
def expressionForm (assignment : Parse Expr) (budget : Nat) : Parse Expr := do
  let first ← assignment
  let others ← collectWithin (furtherPart assignment) budget
  if others.isEmpty then pure first
  else return .comma (← spanFrom first.span.start) (first :: others)

/-- A value, perhaps assigned to. Assignments group from the right. -/
def assignmentForm (conditional assignment : Parse Expr) : Parse Expr := do
  let left ← conditional
  match ← acceptMarkAs assignmentOperator? with
  | none => pure left
  | some operator =>
    let right ← assignment
    pure (.binary (spanBetween left right) operator left right)

/-- A choice between two values, or a value without one. -/
def conditionalForm (binary expression conditional : Parse Expr) : Parse Expr := do
  let condition ← binary
  if ← acceptMark .question then
    let thenValue ← expression
    expectMark .colon "conditional expression"
    let elseValue ← conditional
    pure (.conditional (spanBetween condition elseValue) condition thenValue elseValue)
  else pure condition

def binaryStep (level : Nat) (operand : Parse Expr) (left : Expr) : Parse (Option Expr) := do
  match binaryOperatorAt level (← get) with
  | none => pure none
  | some operator =>
    discard advance
    let right ← operand
    pure (some (.binary (spanBetween left right) operator left right))

def binaryForm (level : Nat) (operand : Parse Expr) (budget : Nat) : Parse Expr := do
  let first ← operand
  iterateWithin (binaryStep level operand) budget first

/-- A cast, a compound literal, or an operand without one. -/
def castForm (unary cast : Parse Expr) (typeName : Parse CType) (initializer : Parse Initializer)
    (suffixes : Expr → Parse Expr) : Parse Expr := do
  let state ← get
  if !state.isAtParenthesizedType then unary
  else
    let start := state.location
    discard advance
    let target ← typeName
    expectMark .rightParen "cast"
    if (← get).isAtMark .leftBrace then
      let value ← initializer
      suffixes (.compoundLiteral (← spanFrom start) target value)
    else
      let operand ← cast
      pure (.cast ⟨start, operand.span.stop⟩ target operand)

/-- What stands behind `sizeof`: a type or compound literal in parentheses, or an operand. -/
def sizeofForm (start : Location) (unary : Parse Expr) (typeName : Parse CType)
    (initializer : Parse Initializer) (suffixes : Expr → Parse Expr) : Parse Expr := do
  if (← get).isAtParenthesizedType then
    discard advance
    let type ← typeName
    expectMark .rightParen "sizeof type"
    if (← get).isAtMark .leftBrace then
      let value ← initializer
      let operand ← suffixes (.compoundLiteral (← spanFrom start) type value)
      return .sizeofExpr (← spanFrom start) operand
    else return .sizeofType (← spanFrom start) type
  else
    let operand ← unary
    pure (.sizeofExpr ⟨start, operand.span.stop⟩ operand)

def takesUnaryOperand : UnaryOperator → Bool
  | .preIncrement | .preDecrement => true
  | _ => false

def unaryForm (unary cast suffixed : Parse Expr) (typeName : Parse CType)
    (initializer : Parse Initializer) (suffixes : Expr → Parse Expr) : Parse Expr := do
  let start ← location
  if ← acceptKeyword .kwSizeof then sizeofForm start unary typeName initializer suffixes
  else
    match ← acceptMarkAs unaryOperator? with
    | some operator =>
      let operand ← if takesUnaryOperand operator then unary else cast
      pure (.unary ⟨start, operand.span.stop⟩ operator operand)
    | none => suffixed

def typeArgumentFunctions : List String :=
  ["__builtin_va_arg", "__builtin_offsetof", "__builtin_types_compatible_p"]

def takesTypes (function : Expr) : Bool :=
  function.identifier?.any typeArgumentFunctions.contains

def argumentStep (typesAllowed : Bool) (assignment : Parse Expr) (typeName : Parse CType) :
    Parse (Option (Expr × Bool)) := do
  let state ← get
  let argument ←
    if typesAllowed && state.isAtType then do
      let type ← typeName
      pure (.typeArgument (← spanFrom state.location) type)
    else assignment
  return some (argument, ← acceptMark .comma)

/-- The arguments of a call behind their opening parenthesis. -/
def argumentsForm (typesAllowed : Bool) (assignment : Parse Expr) (typeName : Parse CType)
    (budget : Nat) : Parse (List Expr) := do
  if ← acceptMark .rightParen then pure []
  else
    let arguments ← collectWithin (argumentStep typesAllowed assignment typeName) budget
    expectMark .rightParen "function call"
    pure arguments

/-- One more subscript, argument list, member or counting operator behind an operand. -/
def suffixStep (expression assignment : Parse Expr) (typeName : Parse CType) (budget : Nat)
    (operand : Expr) : Parse (Option Expr) := do
  let start := operand.span.start
  match (← get).lexeme? with
  | some (.mark .leftBracket) =>
    discard advance
    let index ← expression
    expectMark .rightBracket "array index"
    return some (.binary (← spanFrom start) .index operand index)
  | some (.mark .leftParen) =>
    discard advance
    let arguments ← argumentsForm (takesTypes operand) assignment typeName budget
    return some (.call (← spanFrom start) operand arguments)
  | some (.mark .dot) =>
    discard advance
    let name ← expectIdentifier "member access"
    return some (.member (← spanFrom start) operand name false)
  | some (.mark .arrow) =>
    discard advance
    let name ← expectIdentifier "member access"
    return some (.member (← spanFrom start) operand name true)
  | some (.mark .plusPlus) =>
    discard advance
    return some (.unary (← spanFrom start) .postIncrement operand)
  | some (.mark .minusMinus) =>
    discard advance
    return some (.unary (← spanFrom start) .postDecrement operand)
  | _ => pure none

def suffixesForm (expression assignment : Parse Expr) (typeName : Parse CType) (budget : Nat)
    (operand : Expr) : Parse Expr :=
  iterateWithin (suffixStep expression assignment typeName budget) budget operand

def stringRun : List Token → List String × List Token
  | [] => ([], [])
  | token :: rest =>
    match token.lexeme with
    | .stringLiteral piece =>
      let (pieces, behind) := stringRun rest
      (piece :: pieces, behind)
    | _ => ([], token :: rest)

/-- Takes the string literals that stand here. -/
def stringPieces : Parse (List String) := do
  let state ← get
  let (pieces, rest) := stringRun state.tokens
  set { state with tokens := rest }
  pure pieces

/-- A literal, a name, or an expression in parentheses. -/
def primaryForm (expression : Parse Expr) : Parse Expr := do
  let start ← location
  let found ← advance
  match found.map Token.lexeme with
  | some (.intLiteral spelling) => return .intLiteral (← spanFrom start) spelling
  | some (.floatLiteral spelling) => return .floatLiteral (← spanFrom start) spelling
  | some (.charLiteral spelling) => return .charLiteral (← spanFrom start) spelling
  | some (.stringLiteral first) =>
    let others ← stringPieces
    return .stringLiteral (← spanFrom start) (first :: others)
  | some (.identifier name) => return .identifier (← spanFrom start) name
  | some (.mark .leftParen) =>
    let inner ← expression
    expectMark .rightParen "parenthesized expression"
    pure inner
  | some (.mark .leftBrace) => fault start (.unsupported "Statement expression")
  | _ => unexpected "expression" found

/-! ## Initializers -/

/-- An initializer: a value, or a list in braces. -/
def initializerForm (assignment : Parse Expr) (item : Parse Initializer) (budget : Nat) :
    Parse Initializer := do
  let start ← location
  if ← acceptMark .leftBrace then
    let items ← collectWithin (itemStep item) budget
    expectMark .rightBrace "initializer list"
    return .list (← spanFrom start) items
  else
    let value ← assignment
    return .expression (← spanFrom start) value
where
  /-- One item of a list, which may end in a comma. -/
  itemStep (item : Parse Initializer) : Parse (Option (Initializer × Bool)) := do
    let state ← get
    if state.isAtMark .rightBrace || state.isAtEnd then pure none
    else
      let value ← item
      return some (value, ← acceptMark .comma)

def designatorStep (conditional : Parse Expr) : Parse (Option (Designator × Bool)) := do
  if ← acceptMark .dot then return some (.member (← expectIdentifier "designator"), true)
  else if ← acceptMark .leftBracket then
    let index ← conditional
    expectMark .rightBracket "array designator"
    pure (some (.index index, true))
  else pure none

/-- An item of an initializer list, perhaps with designators. -/
def initializerItemForm (conditional : Parse Expr) (initializer : Parse Initializer)
    (budget : Nat) : Parse Initializer := do
  let start ← location
  let designators ← collectWithin (designatorStep conditional) budget
  if designators.isEmpty then initializer
  else
    expectMark .equal "designated initializer"
    let value ← initializer
    return .designated (← spanFrom start) designators value

end InlineMacro.Parser
