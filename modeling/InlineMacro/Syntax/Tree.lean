import InlineMacro.Source
import InlineMacro.Syntax.Operator

/-!
# The syntax tree

Types, expressions, initializers, statements, declarations, functions and whole units, each with
the span that it was read from. Parentheses are not kept: the printer puts them where the
precedence of the operators asks for them. A definition that has been turned into text already
stands in a unit as a verbatim item.
-/

set_option autoImplicit false

namespace InlineMacro

/-- Type qualifiers. -/
structure Qualifiers where
  isConst : Bool := false
  isVolatile : Bool := false
  isRestrict : Bool := false
deriving DecidableEq, Inhabited, Repr

namespace Qualifiers

def isEmpty (qualifiers : Qualifiers) : Bool :=
  !(qualifiers.isConst || qualifiers.isVolatile || qualifiers.isRestrict)

def merge (first second : Qualifiers) : Qualifiers :=
  ⟨first.isConst || second.isConst, first.isVolatile || second.isVolatile,
    first.isRestrict || second.isRestrict⟩

end Qualifiers

/-- The types that have no parts. -/
inductive BasicType where
  | void | bool | char | signedChar | unsignedChar | short | unsignedShort | int | unsignedInt
  | long | unsignedLong | longLong | unsignedLongLong | float | double | longDouble
deriving DecidableEq, Inhabited, Repr

/-- The two kinds of types with fields. -/
inductive RecordKind where
  | struct
  | union
deriving DecidableEq, Inhabited, Repr

/-- Storage classes; `typedef` is one by grammar. -/
inductive StorageClass where
  | auto | static | external | register | typeAlias
deriving DecidableEq, Inhabited, Repr

mutual

/-- Types as written: a derived type holds what it is derived from, a record or an enumeration its
body if one was given. -/
inductive CType where
  | basic (kind : BasicType)
  | pointer (qualifiers : Qualifiers) (target : CType)
  | array (element : CType) (size : Option Expr)
  | function (result : CType) (parameters : List Parameter) (isVariadic : Bool)
  | record (kind : RecordKind) (tag : Option String) (fields : Option (List Field))
  | enumeration (tag : Option String) (enumerators : Option (List Enumerator))
  | named (name : String)
  | qualified (qualifiers : Qualifiers) (inner : CType)

/-- A parameter of a function; a prototype may leave its name out. -/
structure Parameter where
  name : Option String
  type : CType
  span : Span

/-- A field of a record, perhaps with a width in bits. -/
structure Field where
  name : Option String
  type : CType
  width : Option Expr

/-- A constant of an enumeration, perhaps with its value. -/
structure Enumerator where
  name : String
  value : Option Expr

/-- Expressions. A literal keeps its spelling, adjacent string literals stay separate pieces, and
a type can be an argument of the few built-in functions that take one. -/
inductive Expr where
  | intLiteral (span : Span) (spelling : String)
  | floatLiteral (span : Span) (spelling : String)
  | charLiteral (span : Span) (spelling : String)
  | stringLiteral (span : Span) (pieces : List String)
  | identifier (span : Span) (name : String)
  | binary (span : Span) (operator : BinaryOperator) (left right : Expr)
  | unary (span : Span) (operator : UnaryOperator) (operand : Expr)
  | call (span : Span) (function : Expr) (arguments : List Expr)
  | member (span : Span) (object : Expr) (name : String) (throughPointer : Bool)
  | conditional (span : Span) (condition thenValue elseValue : Expr)
  | cast (span : Span) (target : CType) (operand : Expr)
  | sizeofExpr (span : Span) (operand : Expr)
  | sizeofType (span : Span) (type : CType)
  | compoundLiteral (span : Span) (type : CType) (initializer : Initializer)
  | comma (span : Span) (parts : List Expr)
  | typeArgument (span : Span) (type : CType)

/-- Initializers. -/
inductive Initializer where
  | expression (span : Span) (value : Expr)
  | list (span : Span) (items : List Initializer)
  | designated (span : Span) (designators : List Designator) (initializer : Initializer)

/-- Where a designated initializer goes. -/
inductive Designator where
  | index (index : Expr)
  | member (name : String)

end

instance : Inhabited CType := ⟨.basic .int⟩

instance : Inhabited Expr := ⟨.intLiteral .synthetic "0"⟩

/-- A declared name with its type and initializer. -/
structure Declaration where
  name : String
  type : CType
  storage : Option StorageClass
  isInline : Bool
  initializer : Option Initializer
  span : Span

/-- Statements. -/
inductive Statement where
  | expression (span : Span) (value : Expr)
  | block (span : Span) (statements : List Statement)
  | declaration (span : Span) (declarations : List Declaration)
  | typeDefinition (span : Span) (type : CType)
  | ifElse (span : Span) (condition : Expr) (thenBranch : Statement)
      (elseBranch : Option Statement)
  | whileLoop (span : Span) (condition : Expr) (body : Statement)
  | forLoop (span : Span) (init : Option Statement) (condition update : Option Expr)
      (body : Statement)
  | doWhile (span : Span) (body : Statement) (condition : Expr)
  | switch (span : Span) (subject : Expr) (body : Statement)
  | caseLabel (span : Span) (value : Expr) (statement : Statement)
  | defaultLabel (span : Span) (statement : Statement)
  | breakStatement (span : Span)
  | continueStatement (span : Span)
  | returnStatement (span : Span) (value : Option Expr)
  | gotoStatement (span : Span) (label : String)
  | labelled (span : Span) (label : String) (statement : Statement)
  | empty (span : Span)

instance : Inhabited Statement := ⟨.empty .synthetic⟩

/-- A function with its body. -/
structure Function where
  name : String
  result : CType
  parameters : List Parameter
  isVariadic : Bool
  body : Statement
  storage : Option StorageClass
  isInline : Bool
  span : Span

/-- What stands at file scope. -/
inductive Item where
  | function (definition : Function)
  | declaration (declaration : Declaration)
  | typeDefinition (type : CType) (span : Span)
  | verbatim (text : String) (span : Span)

/-- A whole preprocessed file. -/
structure CompilationUnit where
  items : List Item
  span : Span

/-! ## Types -/

namespace CType

def unqualified : CType → CType
  | qualified _ inner => inner.unqualified
  | type => type

def isVoid (type : CType) : Bool :=
  match type.unqualified with
  | basic .void => true
  | _ => false

def isArray (type : CType) : Bool :=
  match type.unqualified with
  | array .. => true
  | _ => false

def isFunction (type : CType) : Bool :=
  match type.unqualified with
  | function .. => true
  | _ => false

/-- Whether a chain of at least one pointer leads to a function. -/
def isFunctionPointer : CType → Bool
  | qualified _ inner => inner.isFunctionPointer
  | pointer _ target => target.isFunction || target.isFunctionPointer
  | _ => false

/-- Whether an object of the type itself cannot be assigned. -/
def isConst : CType → Bool
  | qualified qualifiers inner => qualifiers.isConst || inner.isConst
  | pointer qualifiers _ => qualifiers.isConst
  | _ => false

/-- The type with the bodies of tagged records and enumerations left out, so that it can be
written a second time. -/
def withoutBodies : CType → CType
  | record kind (some tag) _ => record kind (some tag) none
  | enumeration (some tag) _ => enumeration (some tag) none
  | pointer qualifiers target => pointer qualifiers target.withoutBodies
  | array element size => array element.withoutBodies size
  | function result parameters isVariadic => function result.withoutBodies parameters isVariadic
  | qualified qualifiers inner => qualified qualifiers inner.withoutBodies
  | type => type

def pointerTo (target : CType) : CType := pointer {} target

end CType

/-! ## Expressions -/

namespace Expr

/-- The source that an expression was read from. -/
def span : Expr → Span
  | intLiteral span _ | floatLiteral span _ | charLiteral span _ | stringLiteral span _
  | identifier span _ | binary span .. | unary span .. | call span .. | member span ..
  | conditional span .. | cast span .. | sizeofExpr span _ | sizeofType span _
  | compoundLiteral span .. | comma span _ | typeArgument span _ => span

def identifier? : Expr → Option String
  | identifier _ name => some name
  | _ => none

def callee? : Expr → Option String
  | call _ function _ => function.identifier?
  | _ => none

def ofName (name : String) : Expr := identifier .synthetic name

def callOf (function : Expr) (arguments : List Expr) : Expr := call .synthetic function arguments

def assignment (target value : Expr) : Expr := binary .synthetic .assign target value

def addressOf (operand : Expr) : Expr := unary .synthetic .addressOf operand

def dereference (operand : Expr) : Expr := unary .synthetic .dereference operand

end Expr

/-! ## Statements and declarations -/

namespace Statement

/-- The source that a statement was read from. -/
def span : Statement → Span
  | expression span _ | block span _ | declaration span _ | typeDefinition span _
  | ifElse span .. | whileLoop span .. | forLoop span .. | doWhile span .. | switch span ..
  | caseLabel span .. | defaultLabel span _ | breakStatement span | continueStatement span
  | returnStatement span _ | gotoStatement span _ | labelled span .. | empty span => span

def isBlock : Statement → Bool
  | block .. => true
  | _ => false

def isDeclaration : Statement → Bool
  | declaration .. | typeDefinition .. => true
  | _ => false

def isBranch : Statement → Bool
  | ifElse .. => true
  | _ => false

def isEmpty : Statement → Bool
  | empty _ => true
  | _ => false

def statements : Statement → List Statement
  | block _ statements => statements
  | _ => []

def precededBy (leading : List Statement) : Statement → Statement
  | block span statements => block span (leading ++ statements)
  | other => other

def followedBy (trailing : List Statement) : Statement → Statement
  | block span statements => block span (statements ++ trailing)
  | other => other

def ofExpr (value : Expr) : Statement := expression .synthetic value

def ofList (statements : List Statement) : Statement := block .synthetic statements

def ofDeclaration (declared : Declaration) : Statement := declaration .synthetic [declared]

end Statement

namespace Declaration

def ofVariable (name : String) (type : CType) : Declaration :=
  { name := name, type := type, storage := none, isInline := false, initializer := none,
    span := .synthetic }

def isTypedef (declaration : Declaration) : Bool :=
  declaration.storage == some .typeAlias

end Declaration

/-! ## Functions and units -/

namespace Function

def type (function : Function) : CType :=
  .function function.result function.parameters function.isVariadic

/-- Whether the header says that the function takes nothing, or does not say what it takes. -/
def hasNoParameters (function : Function) : Bool :=
  match function.parameters with
  | [] => true
  | [⟨none, type, _⟩] => type.isVoid
  | _ => false

def namedParameters (function : Function) : List Parameter :=
  function.parameters.filter fun parameter => parameter.name.isSome

def statements (function : Function) : List Statement :=
  function.body.statements

end Function

namespace Item

/-- The source that an item was read from. -/
def span : Item → Span
  | function definition => definition.span
  | declaration declared => declared.span
  | typeDefinition _ span => span
  | verbatim _ span => span

def function? : Item → Option Function
  | function definition => some definition
  | _ => none

end Item

namespace CompilationUnit

def functions (unit : CompilationUnit) : List Function :=
  unit.items.filterMap Item.function?

def mapFunctions (change : Function → Function) (unit : CompilationUnit) : CompilationUnit :=
  { unit with
    items := unit.items.map fun
      | .function definition => .function (change definition)
      | item => item }

def setFunctionIn (replacement : Function) : Nat → List Item → List Item
  | _, [] => []
  | 0, .function _ :: items => .function replacement :: items
  | number + 1, .function other :: items =>
    .function other :: setFunctionIn replacement number items
  | number, item :: items => item :: setFunctionIn replacement number items

def setFunction (number : Nat) (replacement : Function) (unit : CompilationUnit) :
    CompilationUnit :=
  { unit with items := setFunctionIn replacement number unit.items }

end CompilationUnit

end InlineMacro
