import InlineMacro.Pass.Normalize
import InlineMacro.Pass.Rename
import InlineMacro.Proofs.Scope.Resolution

/-!
# What names of types stand for

A typedef gives a name to what its own type stands for at that point, so a chain of them leads to a
type of another form. Any other declaration of the name hides the typedef: an object, a function, a
parameter or a constant of an enumeration.

Only the head of a type is followed: what a pointer leads to and what an array or a function is made
of does not say which kind of type it is.
-/

set_option autoImplicit false

namespace InlineMacro

abbrev TypeTable := String → Option CType

def CType.meaning (table : TypeTable) : CType → CType
  | .named name => (table name).getD (.named name)
  | .qualified qualifiers inner => .qualified qualifiers (inner.meaning table)
  | type => type

def CType.HasByName (test : CType → Bool) (table : TypeTable) (type : CType) : Prop :=
  ∃ name meaning, type.unqualified = .named name ∧ table name = some meaning ∧ test meaning

namespace TypeTable

def hide (table : TypeTable) (names : List ScopedName) : TypeTable :=
  fun name => if ⟨.ordinary, name⟩ ∈ names then none else table name

def behind (table : TypeTable) (items : List ScopeItem) : TypeTable :=
  table.hide (ScopeItem.introduced items)

def declare (table : TypeTable) (declaration : Declaration) : TypeTable :=
  fun name =>
    if name = declaration.name then
      if declaration.isTypedef then some (declaration.type.meaning table) else none
    else table.behind declaration.items name

def after (table : TypeTable) : Statement → TypeTable
  | .declaration _ declarations => declarations.foldl declare table
  | .caseLabel _ value statement => after (table.behind (value.items false)) statement
  | .defaultLabel _ statement | .labelled _ _ statement => after table statement
  | statement => table.behind statement.items

def inBody (table : TypeTable) (function : Function) : TypeTable :=
  (table.hide [⟨.ordinary, function.name⟩]).behind
    (function.result.items function.span ++
      Parameter.listItems (.declared .object) function.parameters)

def afterItem (table : TypeTable) : Item → TypeTable
  | .function definition =>
    (table.behind (definition.result.items definition.span)).hide [⟨.ordinary, definition.name⟩]
  | .declaration declared => table.declare declared
  | .typeDefinition type span => table.behind (type.definitionItems span)
  | .verbatim .. => table

def ofParameters (table : TypeTable) : List Parameter → List (TypeTable × Parameter)
  | [] => []
  | parameter :: rest =>
    (table, parameter) ::
      (table.behind (Parameter.listItems (.declared .object) [parameter])).ofParameters rest

def ofFunctions (table : TypeTable) : List Item → List (TypeTable × Function)
  | [] => []
  | item :: items =>
    (item.function?.map fun function => (table, function)).toList ++
      (table.afterItem item).ofFunctions items

end TypeTable

/-! ## Where declarations are taken apart -/

def Initializer.value? : Initializer → Option Expr
  | .expression _ value => some value
  | _ => none

namespace BlockParts

def separates (parts : BlockParts) (declaration : Declaration) : Bool :=
  parts.canMove declaration && (declaration.initializer.bind Initializer.value?).isSome

/-- The declarations of one statement that are parted from their first values, each with the table in
front of it. -/
def separatedAmong (table : TypeTable) (parts : BlockParts) :
    List Declaration → List (TypeTable × Declaration)
  | [] => []
  | declaration :: rest =>
    (if parts.separates declaration then [(table, declaration)] else []) ++
      separatedAmong (table.declare declaration) (parts.addDeclaration declaration) rest

def separatedBy (table : TypeTable) (parts : BlockParts) :
    Statement → List (TypeTable × Declaration)
  | .declaration _ declarations =>
    if parts.inLeading && !declarations.any Declaration.needsSplit then []
    else separatedAmong table { parts with inLeading := false } declarations
  | _ => []

end BlockParts

namespace Statement

mutual

/-- The declarations that are parted from their first values when declarations are put first in each
block, each with the table in front of it. -/
def separated (table : TypeTable) : Statement → List (TypeTable × Declaration)
  | .block _ statements => separatedIn table {} statements
  | .ifElse _ condition thenBranch none =>
    thenBranch.separated (table.behind (condition.items false))
  | .ifElse _ condition thenBranch (some elseBranch) =>
    thenBranch.separated (table.behind (condition.items false)) ++
      elseBranch.separated (table.behind (condition.items false))
  | .whileLoop _ condition body => body.separated (table.behind (condition.items false))
  | .forLoop _ none condition update body =>
    body.separated (table.behind (optionalItems (Expr.items false) condition ++
      optionalItems (Expr.items false) update))
  | .forLoop _ (some init) condition update body =>
    init.separated table ++
      body.separated ((table.after init).behind (optionalItems (Expr.items false) condition ++
        optionalItems (Expr.items false) update))
  | .doWhile _ body _ => body.separated table
  | .switch _ subject body => body.separated (table.behind (subject.items false))
  | .caseLabel _ value statement => statement.separated (table.behind (value.items false))
  | .defaultLabel _ statement | .labelled _ _ statement => statement.separated table
  | _ => []

def separatedIn (table : TypeTable) (parts : BlockParts) :
    List Statement → List (TypeTable × Declaration)
  | [] => []
  | statement :: statements =>
    parts.separatedBy table statement ++ statement.separated table ++
      separatedIn (table.after statement) (parts.add statement statement.splitDeclarations)
        statements

end

end Statement

/-! ## Tests of what types stand for -/

/-- What a type stands for passes a test if the type as written does, or by the name it is written
with. -/
theorem CType.test_meaning {test : CType → Bool} (own : Qualifiers → Bool)
    (qualified : ∀ qualifiers inner, test (.qualified qualifiers inner) = (own qualifiers || test inner))
    (named : ∀ name, test (.named name) = false) (table : TypeTable) : ∀ type : CType,
    test (type.meaning table) ↔ test type ∨ type.HasByName test table
  | .qualified qualifiers inner => by
    rw [meaning, qualified, qualified, Bool.or_eq_true, Bool.or_eq_true,
      inner.test_meaning own qualified named table, or_assoc]
    rfl
  | .named name => by
    constructor
    · intro passes
      cases found : table name with
      | none =>
        rw [meaning, found] at passes
        exact .inl passes
      | some type =>
        rw [meaning, found] at passes
        exact .inr ⟨name, type, rfl, found, passes⟩
    · rintro (passes | ⟨_, type, ⟨⟩, found, passes⟩)
      · rw [named] at passes
        cases passes
      · rw [meaning, found]
        exact passes
  | .basic _ | .pointer .. | .array .. | .function .. | .record .. | .enumeration .. => by
    refine ⟨.inl, ?_⟩
    rintro (passes | ⟨_, _, ⟨⟩, -, -⟩)
    exact passes

section

variable (table : TypeTable) (type : CType)

theorem CType.isVoid_meaning :
    (type.meaning table).isVoid ↔ type.isVoid ∨ type.HasByName CType.isVoid table :=
  type.test_meaning (fun _ => false) (fun _ _ => rfl) (fun _ => rfl) table

theorem CType.isArray_meaning :
    (type.meaning table).isArray ↔ type.isArray ∨ type.HasByName CType.isArray table :=
  type.test_meaning (fun _ => false) (fun _ _ => rfl) (fun _ => rfl) table

theorem CType.isFunction_meaning :
    (type.meaning table).isFunction ↔ type.isFunction ∨ type.HasByName CType.isFunction table :=
  type.test_meaning (fun _ => false) (fun _ _ => rfl) (fun _ => rfl) table

theorem CType.isConst_meaning :
    (type.meaning table).isConst ↔ type.isConst ∨ type.HasByName CType.isConst table :=
  type.test_meaning Qualifiers.isConst (fun _ _ => rfl) (fun _ => rfl) table

end

end InlineMacro
