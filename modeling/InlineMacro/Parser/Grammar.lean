import InlineMacro.Parser.Statement
import InlineMacro.Token.Lexer

/-!
# The grammar

The productions tied together. Each call within the grammar lowers the budget by one; between two
tokens there are at most a few dozen calls, one for each level of expressions, so a budget in
proportion to the number of tokens is never used up.
-/

set_option autoImplicit false

namespace InlineMacro.Parser

namespace Grammar

mutual

def expression : Nat → Parse Expr
  | 0 => exhausted
  | budget + 1 => expressionForm (assignment budget) budget
termination_by structural budget => budget

def assignment : Nat → Parse Expr
  | 0 => exhausted
  | budget + 1 => assignmentForm (conditional budget) (assignment budget)
termination_by structural budget => budget

/-- A choice between two values, or a value without one. -/
def conditional : Nat → Parse Expr
  | 0 => exhausted
  | budget + 1 => conditionalForm (binary budget 0) (expression budget) (conditional budget)
termination_by structural budget => budget

def binary : Nat → Nat → Parse Expr
  | 0, _ => exhausted
  | budget + 1, level =>
    if level = binaryLevels then cast budget
    else binaryForm level (binary budget (level + 1)) budget
termination_by structural budget => budget

/-- A cast, a compound literal, or an operand without one. -/
def cast : Nat → Parse Expr
  | 0 => exhausted
  | budget + 1 =>
    castForm (unary budget) (cast budget) (typeName budget) (initializer budget) (suffixes budget)
termination_by structural budget => budget

def unary : Nat → Parse Expr
  | 0 => exhausted
  | budget + 1 =>
    unaryForm (unary budget) (cast budget) (suffixed budget) (typeName budget)
      (initializer budget) (suffixes budget)
termination_by structural budget => budget

/-- An operand with all that stands behind it. -/
def suffixed : Nat → Parse Expr
  | 0 => exhausted
  | budget + 1 => do suffixes budget (← primary budget)
termination_by structural budget => budget

def suffixes : Nat → Expr → Parse Expr
  | 0, _ => exhausted
  | budget + 1, operand =>
    suffixesForm (expression budget) (assignment budget) (typeName budget) budget operand
termination_by structural budget => budget

/-- A literal, a name, or an expression in parentheses. -/
def primary : Nat → Parse Expr
  | 0 => exhausted
  | budget + 1 => primaryForm (expression budget)
termination_by structural budget => budget

def initializer : Nat → Parse Initializer
  | 0 => exhausted
  | budget + 1 => initializerForm (assignment budget) (initializerItem budget) budget
termination_by structural budget => budget

def initializerItem : Nat → Parse Initializer
  | 0 => exhausted
  | budget + 1 => initializerItemForm (conditional budget) (initializer budget) budget
termination_by structural budget => budget

def typeName : Nat → Parse CType
  | 0 => exhausted
  | budget + 1 => typeNameForm (specifiersOf budget) (declarator budget)
termination_by structural budget => budget

/-- The specifiers that a declaration starts with. -/
def specifiersOf : Nat → Parse Specifiers
  | 0 => exhausted
  | budget + 1 => specifiers (bodied budget) budget
termination_by structural budget => budget

/-- A structure, union or enumeration behind its keyword. -/
def bodied : Nat → BodiedType → Parse CType
  | 0, _ => exhausted
  | budget + 1, .record kind =>
    recordForm kind (specifiersOf budget) (declarator budget) (conditional budget) budget
  | budget + 1, .enumeration => enumerationForm (conditional budget) budget
termination_by structural budget => budget

def declarator : Nat → Parse Declarator
  | 0 => exhausted
  | budget + 1 =>
    declaratorForm (declarator budget) (assignment budget) (parameters budget) budget
termination_by structural budget => budget

/-- The parameters of a function type behind their opening parenthesis. -/
def parameters : Nat → Parse Derivation
  | 0 => exhausted
  | budget + 1 => parameterList (specifiersOf budget) (declarator budget) budget
termination_by structural budget => budget

end

/-- A declaration or a type in a block. -/
def localDeclaration : Nat → Parse Statement
  | 0 => exhausted
  | budget + 1 =>
    localDeclarationForm (specifiersOf budget) (declarator budget) (initializer budget) budget

mutual

def statement : Nat → Parse Statement
  | 0 => exhausted
  | budget + 1 =>
    statementForm (expression budget) (conditional budget) (localDeclaration budget)
      (block budget) (statement budget)
termination_by structural budget => budget

def block : Nat → Parse Statement
  | 0 => exhausted
  | budget + 1 => blockForm (statement budget) budget
termination_by structural budget => budget

end

/-- A function whose header has been read. -/
def functionForm (given : Specifiers) (start : Location) (name : String) (result : CType)
    (parameters : List Parameter) (isVariadic : Bool) (budget : Nat) : Parse Function := do
  let body ← block budget
  return {
    name := name
    result := result
    parameters := parameters
    isVariadic := isVariadic
    body := body
    storage := given.storage
    isInline := given.isInline
    span := ← spanFrom start }

/-- What stands at file scope: nothing but a semicolon, a type, a function or declarations. -/
def item (budget : Nat) : Parse (List Item) := do
  let start ← location
  if ← acceptMark .semicolon then pure []
  else
    let given ← specifiersOf budget
    if ← acceptMark .semicolon then return [.typeDefinition given.base (← spanFrom start)]
    else
      let declared ← declarator budget
      match declared.typeFrom given.base, (← get).isAtMark .leftBrace with
      | .function result parameters isVariadic, true =>
        match declared.name with
        | none => fault start .namelessFunction
        | some name =>
          return [.function (← functionForm given start name result parameters isVariadic budget)]
      | _, _ =>
        let declarations ←
          initDeclarators given start declared (declarator budget) (initializer budget) budget
        pure (declarations.map .declaration)

def itemStep (budget : Nat) : Parse (Option (List Item × Bool)) := do
  if (← get).isAtEnd then pure none else return some (← item budget, true)

def unit (budget : Nat) : Parse CompilationUnit := do
  let start ← location
  let items ← collectWithin (itemStep budget) budget
  return ⟨items.flatten, ⟨start, ← location⟩⟩

end Grammar

def State.budget (state : State) : Nat := 64 * (state.tokens.length + 1)

def budgeted {α : Type} (production : Nat → Parse α) : Parse α := do
  production (← get).budget

/-! ## Entry points, one for each production -/

def expression : Parse Expr := budgeted Grammar.expression

def assignment : Parse Expr := budgeted Grammar.assignment

def conditional : Parse Expr := budgeted Grammar.conditional

def cast : Parse Expr := budgeted Grammar.cast

def unary : Parse Expr := budgeted Grammar.unary

def suffixed : Parse Expr := budgeted Grammar.suffixed

def primary : Parse Expr := budgeted Grammar.primary

def initializer : Parse Initializer := budgeted Grammar.initializer

def typeName : Parse CType := budgeted Grammar.typeName

def declarationSpecifiers : Parse Specifiers := budgeted Grammar.specifiersOf

def declarator : Parse Declarator := budgeted Grammar.declarator

def statement : Parse Statement := budgeted Grammar.statement

def block : Parse Statement := budgeted Grammar.block

def localDeclaration : Parse Statement := budgeted Grammar.localDeclaration

def item : Parse (List Item) := budgeted Grammar.item

def compilationUnit : Parse CompilationUnit := budgeted Grammar.unit

def runOn {α : Type} (parser : Parse α) (tokens : List Token) (typedefs : List String := []) :
    Except Failure α :=
  match parser.run (.ofTokens tokens typedefs) with
  | .ok result _ => .ok result
  | .error failure _ => .error failure

end Parser

def CompilationUnit.parse (text : String) (file : String := "<input>")
    (typedefs : List String := []) : Except Failure CompilationUnit := do
  Parser.runOn Parser.compilationUnit (← Lexer.tokenize text file) typedefs

/-- Reads an expression that is all of a text. -/
def Expr.parse (text : String) : Except Failure Expr := do
  let whole : Parser.Parse Expr := do
    let value ← Parser.expression
    Parser.expect .endOfFile "expression"
    pure value
  Parser.runOn whole (← Lexer.tokenize text)

end InlineMacro
