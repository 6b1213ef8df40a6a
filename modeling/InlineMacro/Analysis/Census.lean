import InlineMacro.Scope.Locals
import InlineMacro.Syntax.CallPosition

/-!
# The census of uses

How the functions of a unit are used: called by name, called in a position where the call can
become a statement, or mentioned in any other way. A name that a local object shadows is no use of
a function.
-/

set_option autoImplicit false

namespace InlineMacro

/-- A use of a name. -/
inductive Use where
  | called (name : String)
  | mentioned (name : String)
deriving DecidableEq, Repr

def Use.name : Use → String
  | called name => name
  | mentioned name => name

mutual

def CType.uses : CType → List Use
  | .basic _ => []
  | .pointer _ target => target.uses
  | .array element none => element.uses
  | .array element (some size) => element.uses ++ size.uses
  | .function result parameters _ => result.uses ++ Parameter.listUses parameters
  | .record _ _ none => []
  | .record _ _ (some fields) => Field.listUses fields
  | .enumeration _ none => []
  | .enumeration _ (some enumerators) => Enumerator.listUses enumerators
  | .named _ => []
  | .qualified _ inner => inner.uses

def Parameter.listUses : List Parameter → List Use
  | [] => []
  | ⟨_, type, _⟩ :: rest => type.uses ++ Parameter.listUses rest

def Field.listUses : List Field → List Use
  | [] => []
  | ⟨_, type, none⟩ :: rest => type.uses ++ Field.listUses rest
  | ⟨_, type, some width⟩ :: rest => type.uses ++ width.uses ++ Field.listUses rest

def Enumerator.listUses : List Enumerator → List Use
  | [] => []
  | ⟨_, none⟩ :: rest => Enumerator.listUses rest
  | ⟨_, some value⟩ :: rest => value.uses ++ Enumerator.listUses rest

def Expr.uses : Expr → List Use
  | .identifier _ name => [.mentioned name]
  | .call _ (.identifier _ name) arguments => .called name :: Expr.listUses arguments
  | .call _ function arguments => function.uses ++ Expr.listUses arguments
  | .binary _ _ left right => left.uses ++ right.uses
  | .unary _ _ operand => operand.uses
  | .member _ object _ _ => object.uses
  | .conditional _ condition thenValue elseValue =>
    condition.uses ++ thenValue.uses ++ elseValue.uses
  | .cast _ target operand => target.uses ++ operand.uses
  | .sizeofExpr _ operand => operand.uses
  | .sizeofType _ type => type.uses
  | .compoundLiteral _ type initializer => type.uses ++ initializer.uses
  | .comma _ parts => Expr.listUses parts
  | .typeArgument _ type => type.uses
  | .intLiteral .. | .floatLiteral .. | .charLiteral .. | .stringLiteral .. => []

def Expr.listUses : List Expr → List Use
  | [] => []
  | part :: parts => part.uses ++ Expr.listUses parts

def Initializer.uses : Initializer → List Use
  | .expression _ value => value.uses
  | .list _ items => Initializer.listUses items
  | .designated _ designators initializer => Designator.listUses designators ++ initializer.uses

def Initializer.listUses : List Initializer → List Use
  | [] => []
  | item :: items => item.uses ++ Initializer.listUses items

def Designator.listUses : List Designator → List Use
  | [] => []
  | .index index :: rest => index.uses ++ Designator.listUses rest
  | .member _ :: rest => Designator.listUses rest

end

/-- One entry of the census: in which function, and how, a name is used. A call that can become a
statement is entered twice, as a call and as a positioned one. -/
inductive CensusEntry where
  | used (within : Option String) (use : Use)
  | positioned (name : String)
deriving DecidableEq, Repr

/-- What the census has found, and the names in scope where it stands. -/
structure CensusState where
  within : Option String := none
  locals : LocalNames := {}
  entries : List CensusEntry := []

namespace CensusState

def record (state : CensusState) (uses : List Use) : CensusState :=
  let visible := uses.filter fun use => !state.locals.contains use.name
  { state with entries := state.entries ++ visible.map (.used state.within) }

/-- Enters the calls of a statement that can become statements. -/
def recordPositioned (state : CensusState) (statement : Statement) : CensusState :=
  let names := statement.positionedCalls.filterMap Expr.callee?
  let visible := names.filter fun name => !state.locals.contains name
  { state with entries := state.entries ++ visible.map .positioned }

def enter (state : CensusState) : CensusState := { state with locals := state.locals.enter }

def leave (state : CensusState) : CensusState := { state with locals := state.locals.leave }

/-- Counts a declaration: its name is in scope from its own initializer on. -/
def declaration (state : CensusState) (declaration : Declaration) : CensusState :=
  let typed := state.record declaration.type.uses
  let declared := { typed with locals := typed.locals.declare declaration }
  match declaration.initializer with
  | none => declared
  | some initializer => declared.record initializer.uses

def option (state : CensusState) : Option Expr → CensusState
  | none => state
  | some value => state.record value.uses

end CensusState

mutual

def Statement.census (state : CensusState) : Statement → CensusState
  | .expression _ value => state.record value.uses
  | .block _ statements => (Statement.listCensus state.enter statements).leave
  | .declaration _ declarations => declarations.foldl CensusState.declaration state
  | .typeDefinition _ type => state.record type.uses
  | .ifElse _ condition thenBranch none => thenBranch.census (state.record condition.uses)
  | .ifElse _ condition thenBranch (some elseBranch) =>
    elseBranch.census (thenBranch.census (state.record condition.uses))
  | .whileLoop _ condition body => body.census (state.record condition.uses)
  | .forLoop _ none condition update body => body.census ((state.option condition).option update)
  | .forLoop _ (some init) condition update body =>
    (body.census (((init.census state.enter).option condition).option update)).leave
  | .doWhile _ body condition => (body.census state).record condition.uses
  | .switch _ subject body => body.census (state.record subject.uses)
  | .caseLabel _ value statement => statement.census (state.record value.uses)
  | .defaultLabel _ statement => statement.census state
  | .returnStatement _ value => state.option value
  | .labelled _ _ statement => statement.census state
  | .breakStatement _ | .continueStatement _ | .gotoStatement _ _ | .empty _ => state

/-- Counts the uses in the statements of a block. -/
def Statement.listCensus (state : CensusState) : List Statement → CensusState
  | [] => state
  | statement :: statements =>
    Statement.listCensus (statement.census (state.recordPositioned statement)) statements

end

def Function.census (state : CensusState) (function : Function) : CensusState :=
  let opened : CensusState :=
    { state with within := some function.name, locals := .ofFunction function }
  let header := opened.record (function.result.uses ++ Parameter.listUses function.parameters)
  { function.body.census header with within := none, locals := {} }

def Item.census (state : CensusState) : Item → CensusState
  | function definition => definition.census state
  | declaration declared => state.declaration declared
  | typeDefinition type _ => state.record type.uses
  | verbatim _ _ => state

/-- The uses of names in a unit. -/
structure Census where
  entries : List CensusEntry

def CompilationUnit.census (unit : CompilationUnit) : Census :=
  ⟨(unit.items.foldl Item.census {}).entries⟩

namespace Census

/-- How often a function is called by name. -/
def calls (census : Census) (name : String) : Nat :=
  census.entries.countP fun
    | .used _ (.called callee) => callee == name
    | _ => false

/-- How often a function is called where the call can become a statement. -/
def positionedCalls (census : Census) (name : String) : Nat :=
  census.entries.countP fun
    | .positioned callee => callee == name
    | _ => false

def isCalledInExpression (census : Census) (name : String) : Bool :=
  census.positionedCalls name < census.calls name

/-- Whether a function is used in another way than by calling it. -/
def isMentioned (census : Census) (name : String) : Bool :=
  census.entries.any fun
    | .used _ (.mentioned mentioned) => mentioned == name
    | _ => false

/-- The functions that a function calls by name. -/
def callees (census : Census) (caller : String) : List String :=
  census.entries.filterMap fun
    | .used (some within) (.called callee) => if within == caller then some callee else none
    | _ => none

/-- The names with those added that the calls in their functions lead to, as often as the budget
allows. -/
def reachedWithin (census : Census) : Nat → List String → List String
  | 0, names => names
  | budget + 1, names =>
    let found := (names.flatMap census.callees).eraseDups.filter (!names.contains ·)
    if found.isEmpty then names else census.reachedWithin budget (names ++ found)

/-- The functions that the calls in a function lead to, through any number of further calls. Each
round but the last finds a new callee, so the entries bound the rounds. -/
def reached (census : Census) (name : String) : List String :=
  census.reachedWithin (census.entries.length + 1) (census.callees name).eraseDups

def isRecursive (census : Census) (name : String) : Bool :=
  (census.reached name).contains name

end Census

end InlineMacro
