import InlineMacro.Analysis.Census

/-!
# Occurrences of names

Every use of a name in a tree, together with where it stands: in which place of its statement,
whether that statement is one of a block, and in which scope. What a scope is stays open. One
reading takes the names of local objects, another what each declaration in scope makes of its name.
A declaration is in scope from its own initializer on, and a block or a loop that starts with
something takes its declarations with it.
-/

set_option autoImplicit false

namespace InlineMacro

/-! ## Places in a statement -/

/-- Where a use stands in its statement: it is the call that the statement stands for, an argument
of such a call, directly or through further calls, or anything else. -/
inductive UsePlace where
  | call (position : CallPosition)
  | argument
  | elsewhere
deriving DecidableEq, Inhabited, Repr

def UsePlace.ofArguments : UsePlace → UsePlace
  | elsewhere => elsewhere
  | _ => argument

def Use.elsewhere (uses : List Use) : List (Use × UsePlace) :=
  uses.map fun use => (use, .elsewhere)

mutual

def Expr.placedUses (place : UsePlace) : Expr → List (Use × UsePlace)
  | .call _ (.identifier _ name) arguments =>
    (.called name, place) :: Expr.listPlacedUses place.ofArguments arguments
  | .call _ function arguments =>
    Use.elsewhere function.uses ++ Expr.listPlacedUses place.ofArguments arguments
  | other => Use.elsewhere other.uses

def Expr.listPlacedUses (place : UsePlace) : List Expr → List (Use × UsePlace)
  | [] => []
  | part :: parts => part.placedUses place ++ Expr.listPlacedUses place parts

end

def Expr.statementUses : Expr → List (Use × UsePlace)
  | .binary _ .assign left right =>
    Use.elsewhere left.uses ++ right.placedUses (.call .assigned)
  | .cast _ target operand =>
    Use.elsewhere target.uses ++
      operand.placedUses (if target.isVoid then .call .thrownAway else .elsewhere)
  | value => value.placedUses (.call .whole)

/-! ## Scopes -/

/-- How scopes come about: outside of functions, at the head of a function, behind the start of a
block, and behind a declaration. -/
structure Scoping (σ : Type) where
  outside : σ
  ofFunction : Function → σ
  enter : σ → σ
  declare : σ → Declaration → σ

/-- The use of a name at a point of a unit. -/
structure Occurrence (σ : Type) where
  use : Use
  place : UsePlace
  inBlock : Bool
  scope : σ

namespace Occurrence

variable {σ : Type}

def placedAt (scope : σ) (inBlock : Bool) (uses : List (Use × UsePlace)) : List (Occurrence σ) :=
  uses.map fun placed => ⟨placed.1, placed.2, inBlock, scope⟩

def elsewhereAt (scope : σ) (uses : List Use) : List (Occurrence σ) :=
  uses.map fun use => ⟨use, .elsewhere, false, scope⟩

def isPositioned (occurrence : Occurrence σ) : Bool :=
  occurrence.inBlock && occurrence.place != .elsewhere

end Occurrence

def optionalUses {α : Type} (uses : α → List Use) : Option α → List Use
  | none => []
  | some value => uses value

section Occurrences

variable {σ : Type} (scoping : Scoping σ)

def Declaration.occurrences (scope : σ) (declaration : Declaration) : List (Occurrence σ) :=
  Occurrence.elsewhereAt scope declaration.type.uses ++
    Occurrence.elsewhereAt (scoping.declare scope declaration)
      (optionalUses Initializer.uses declaration.initializer)

def Declaration.listOccurrences (scope : σ) : List Declaration → List (Occurrence σ)
  | [] => []
  | declaration :: declarations =>
    declaration.occurrences scoping scope ++
      Declaration.listOccurrences (scoping.declare scope declaration) declarations

def Statement.scopeAfter (scope : σ) : Statement → σ
  | .declaration _ declarations => declarations.foldl scoping.declare scope
  | .ifElse _ _ thenBranch none => thenBranch.scopeAfter scope
  | .ifElse _ _ thenBranch (some elseBranch) => elseBranch.scopeAfter (thenBranch.scopeAfter scope)
  | .whileLoop _ _ body => body.scopeAfter scope
  | .forLoop _ none _ _ body => body.scopeAfter scope
  | .doWhile _ body _ => body.scopeAfter scope
  | .switch _ _ body => body.scopeAfter scope
  | .caseLabel _ _ statement => statement.scopeAfter scope
  | .defaultLabel _ statement => statement.scopeAfter scope
  | .labelled _ _ statement => statement.scopeAfter scope
  | _ => scope

mutual

def Statement.occurrences (inBlock : Bool) (scope : σ) : Statement → List (Occurrence σ)
  | .expression _ value => Occurrence.placedAt scope inBlock value.statementUses
  | .block _ statements => Statement.listOccurrences (scoping.enter scope) statements
  | .declaration _ declarations => Declaration.listOccurrences scoping scope declarations
  | .typeDefinition _ type => Occurrence.elsewhereAt scope type.uses
  | .ifElse _ condition thenBranch none =>
    Occurrence.elsewhereAt scope condition.uses ++ thenBranch.occurrences false scope
  | .ifElse _ condition thenBranch (some elseBranch) =>
    Occurrence.elsewhereAt scope condition.uses ++
      (thenBranch.occurrences false scope ++
        elseBranch.occurrences false (thenBranch.scopeAfter scoping scope))
  | .whileLoop _ condition body =>
    Occurrence.elsewhereAt scope condition.uses ++ body.occurrences false scope
  | .forLoop _ none condition update body =>
    Occurrence.elsewhereAt scope
        (optionalUses Expr.uses condition ++ optionalUses Expr.uses update) ++
      body.occurrences false scope
  | .forLoop _ (some init) condition update body =>
    init.occurrences false (scoping.enter scope) ++
      (Occurrence.elsewhereAt (init.scopeAfter scoping (scoping.enter scope))
          (optionalUses Expr.uses condition ++ optionalUses Expr.uses update) ++
        body.occurrences false (init.scopeAfter scoping (scoping.enter scope)))
  | .doWhile _ body condition =>
    body.occurrences false scope ++
      Occurrence.elsewhereAt (body.scopeAfter scoping scope) condition.uses
  | .switch _ subject body =>
    Occurrence.elsewhereAt scope subject.uses ++ body.occurrences false scope
  | .caseLabel _ value statement =>
    Occurrence.elsewhereAt scope value.uses ++ statement.occurrences false scope
  | .defaultLabel _ statement => statement.occurrences false scope
  | .labelled _ _ statement => statement.occurrences false scope
  | .returnStatement _ value =>
    Occurrence.placedAt scope inBlock
      ((value.map fun value => value.placedUses (.call .returned)).getD [])
  | .breakStatement _ | .continueStatement _ | .gotoStatement _ _ | .empty _ => []

def Statement.listOccurrences (scope : σ) : List Statement → List (Occurrence σ)
  | [] => []
  | statement :: statements =>
    statement.occurrences true scope ++
      Statement.listOccurrences (statement.scopeAfter scoping scope) statements

end

def Function.occurrences (function : Function) : List (Occurrence σ) :=
  Occurrence.elsewhereAt (scoping.ofFunction function)
      (function.result.uses ++ Parameter.listUses function.parameters) ++
    function.body.occurrences scoping false (scoping.ofFunction function)

def Item.occurrences : Item → List (Occurrence σ)
  | .function definition => definition.occurrences scoping
  | .declaration declared =>
    Occurrence.elsewhereAt scoping.outside
      (declared.type.uses ++ optionalUses Initializer.uses declared.initializer)
  | .typeDefinition type _ => Occurrence.elsewhereAt scoping.outside type.uses
  | .verbatim _ _ => []

def CompilationUnit.occurrences (unit : CompilationUnit) : List (Occurrence σ) :=
  unit.items.flatMap (Item.occurrences scoping)

end Occurrences

end InlineMacro
