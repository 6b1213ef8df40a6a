import InlineMacro.Parser.Declarator

/-!
# Trees without places

What two trees that were read from different texts have in common: the same tree with all spans left
out.
-/

set_option autoImplicit false

namespace InlineMacro

mutual

def CType.unplaced : CType → CType
  | .basic kind => .basic kind
  | .pointer qualifiers target => .pointer qualifiers target.unplaced
  | .array element none => .array element.unplaced none
  | .array element (some size) => .array element.unplaced (some size.unplaced)
  | .function result parameters isVariadic =>
    .function result.unplaced (Parameter.listUnplaced parameters) isVariadic
  | .record kind tag none => .record kind tag none
  | .record kind tag (some fields) => .record kind tag (some (Field.listUnplaced fields))
  | .enumeration tag none => .enumeration tag none
  | .enumeration tag (some enumerators) =>
    .enumeration tag (some (Enumerator.listUnplaced enumerators))
  | .named name => .named name
  | .qualified qualifiers inner => .qualified qualifiers inner.unplaced

def Parameter.listUnplaced : List Parameter → List Parameter
  | [] => []
  | ⟨name, type, _⟩ :: rest => ⟨name, type.unplaced, .synthetic⟩ :: Parameter.listUnplaced rest

def Field.listUnplaced : List Field → List Field
  | [] => []
  | ⟨name, type, none⟩ :: rest => ⟨name, type.unplaced, none⟩ :: Field.listUnplaced rest
  | ⟨name, type, some width⟩ :: rest =>
    ⟨name, type.unplaced, some width.unplaced⟩ :: Field.listUnplaced rest

def Enumerator.listUnplaced : List Enumerator → List Enumerator
  | [] => []
  | ⟨name, none⟩ :: rest => ⟨name, none⟩ :: Enumerator.listUnplaced rest
  | ⟨name, some value⟩ :: rest => ⟨name, some value.unplaced⟩ :: Enumerator.listUnplaced rest

def Expr.unplaced : Expr → Expr
  | .intLiteral _ spelling => .intLiteral .synthetic spelling
  | .floatLiteral _ spelling => .floatLiteral .synthetic spelling
  | .charLiteral _ spelling => .charLiteral .synthetic spelling
  | .stringLiteral _ pieces => .stringLiteral .synthetic pieces
  | .identifier _ name => .identifier .synthetic name
  | .binary _ operator left right => .binary .synthetic operator left.unplaced right.unplaced
  | .unary _ operator operand => .unary .synthetic operator operand.unplaced
  | .call _ function arguments => .call .synthetic function.unplaced (Expr.listUnplaced arguments)
  | .member _ object name throughPointer =>
    .member .synthetic object.unplaced name throughPointer
  | .conditional _ condition thenValue elseValue =>
    .conditional .synthetic condition.unplaced thenValue.unplaced elseValue.unplaced
  | .cast _ target operand => .cast .synthetic target.unplaced operand.unplaced
  | .sizeofExpr _ operand => .sizeofExpr .synthetic operand.unplaced
  | .sizeofType _ type => .sizeofType .synthetic type.unplaced
  | .compoundLiteral _ type initializer =>
    .compoundLiteral .synthetic type.unplaced initializer.unplaced
  | .comma _ parts => .comma .synthetic (Expr.listUnplaced parts)
  | .typeArgument _ type => .typeArgument .synthetic type.unplaced

def Expr.listUnplaced : List Expr → List Expr
  | [] => []
  | part :: parts => part.unplaced :: Expr.listUnplaced parts

def Initializer.unplaced : Initializer → Initializer
  | .expression _ value => .expression .synthetic value.unplaced
  | .list _ items => .list .synthetic (Initializer.listUnplaced items)
  | .designated _ designators initializer =>
    .designated .synthetic (Designator.listUnplaced designators) initializer.unplaced

def Initializer.listUnplaced : List Initializer → List Initializer
  | [] => []
  | item :: items => item.unplaced :: Initializer.listUnplaced items

def Designator.listUnplaced : List Designator → List Designator
  | [] => []
  | .index index :: rest => .index index.unplaced :: Designator.listUnplaced rest
  | .member name :: rest => .member name :: Designator.listUnplaced rest

end

def Parameter.unplaced (parameter : Parameter) : Parameter :=
  ⟨parameter.name, parameter.type.unplaced, .synthetic⟩

@[simp] theorem Parameter.listUnplaced_eq (parameters : List Parameter) :
    Parameter.listUnplaced parameters = parameters.map Parameter.unplaced := by
  induction parameters with
  | nil => rw [Parameter.listUnplaced, List.map_nil]
  | cons parameter parameters ih =>
    obtain ⟨name, type, span⟩ := parameter
    rw [Parameter.listUnplaced, ih, List.map_cons, Parameter.unplaced]

@[simp] theorem Expr.listUnplaced_eq (parts : List Expr) :
    Expr.listUnplaced parts = parts.map Expr.unplaced := by
  induction parts with
  | nil => rw [Expr.listUnplaced, List.map_nil]
  | cons part parts ih => rw [Expr.listUnplaced, ih, List.map_cons]

def Designator.unplaced : Designator → Designator
  | .index position => .index position.unplaced
  | .member name => .member name

@[simp] theorem Designator.listUnplaced_eq (designators : List Designator) :
    Designator.listUnplaced designators = designators.map Designator.unplaced := by
  induction designators with
  | nil => rw [Designator.listUnplaced, List.map_nil]
  | cons designator designators ih =>
    cases designator <;> rw [Designator.listUnplaced, ih, List.map_cons, Designator.unplaced]

@[simp] theorem Initializer.listUnplaced_eq (items : List Initializer) :
    Initializer.listUnplaced items = items.map Initializer.unplaced := by
  induction items with
  | nil => rw [Initializer.listUnplaced, List.map_nil]
  | cons item items ih => rw [Initializer.listUnplaced, ih, List.map_cons]

def Field.unplaced (field : Field) : Field :=
  ⟨field.name, field.type.unplaced, field.width.map Expr.unplaced⟩

@[simp] theorem Field.listUnplaced_eq (fields : List Field) :
    Field.listUnplaced fields = fields.map Field.unplaced := by
  induction fields with
  | nil => rw [Field.listUnplaced, List.map_nil]
  | cons field fields ih =>
    obtain ⟨name, type, width⟩ := field
    cases width <;> rw [Field.listUnplaced, ih, List.map_cons, Field.unplaced] <;> rfl

def Enumerator.unplaced (constant : Enumerator) : Enumerator :=
  ⟨constant.name, constant.value.map Expr.unplaced⟩

@[simp] theorem Enumerator.listUnplaced_eq (constants : List Enumerator) :
    Enumerator.listUnplaced constants = constants.map Enumerator.unplaced := by
  induction constants with
  | nil => rw [Enumerator.listUnplaced, List.map_nil]
  | cons constant constants ih =>
    obtain ⟨name, value⟩ := constant
    cases value <;> rw [Enumerator.listUnplaced, ih, List.map_cons, Enumerator.unplaced] <;> rfl

def Declaration.unplaced (declaration : Declaration) : Declaration :=
  { declaration with
    type := declaration.type.unplaced
    initializer := declaration.initializer.map Initializer.unplaced
    span := .synthetic }

mutual

def Statement.unplaced : Statement → Statement
  | .expression _ value => .expression .synthetic value.unplaced
  | .block _ statements => .block .synthetic (Statement.listUnplaced statements)
  | .declaration _ declarations => .declaration .synthetic (declarations.map Declaration.unplaced)
  | .typeDefinition _ type => .typeDefinition .synthetic type.unplaced
  | .ifElse _ condition thenBranch none =>
    .ifElse .synthetic condition.unplaced thenBranch.unplaced none
  | .ifElse _ condition thenBranch (some elseBranch) =>
    .ifElse .synthetic condition.unplaced thenBranch.unplaced (some elseBranch.unplaced)
  | .whileLoop _ condition body => .whileLoop .synthetic condition.unplaced body.unplaced
  | .forLoop _ none condition update body =>
    .forLoop .synthetic none (condition.map Expr.unplaced) (update.map Expr.unplaced) body.unplaced
  | .forLoop _ (some init) condition update body =>
    .forLoop .synthetic (some init.unplaced) (condition.map Expr.unplaced) (update.map Expr.unplaced)
      body.unplaced
  | .doWhile _ body condition => .doWhile .synthetic body.unplaced condition.unplaced
  | .switch _ subject body => .switch .synthetic subject.unplaced body.unplaced
  | .caseLabel _ value statement => .caseLabel .synthetic value.unplaced statement.unplaced
  | .defaultLabel _ statement => .defaultLabel .synthetic statement.unplaced
  | .breakStatement _ => .breakStatement .synthetic
  | .continueStatement _ => .continueStatement .synthetic
  | .returnStatement _ value => .returnStatement .synthetic (value.map Expr.unplaced)
  | .gotoStatement _ label => .gotoStatement .synthetic label
  | .labelled _ label statement => .labelled .synthetic label statement.unplaced
  | .empty _ => .empty .synthetic

def Statement.listUnplaced : List Statement → List Statement
  | [] => []
  | statement :: statements => statement.unplaced :: Statement.listUnplaced statements

end

@[simp] theorem Statement.listUnplaced_eq (statements : List Statement) :
    Statement.listUnplaced statements = statements.map Statement.unplaced := by
  induction statements with
  | nil => rw [Statement.listUnplaced, List.map_nil]
  | cons statement statements ih => rw [Statement.listUnplaced, ih, List.map_cons]

def Function.unplaced (function : Function) : Function :=
  { function with
    result := function.result.unplaced
    parameters := function.parameters.map Parameter.unplaced
    body := function.body.unplaced
    span := .synthetic }

def Item.unplaced : Item → Item
  | .function definition => .function definition.unplaced
  | .declaration declared => .declaration declared.unplaced
  | .typeDefinition type _ => .typeDefinition type.unplaced .synthetic
  | .verbatim text _ => .verbatim text .synthetic

def CompilationUnit.unplaced (unit : CompilationUnit) : CompilationUnit :=
  ⟨unit.items.map Item.unplaced, .synthetic⟩

theorem Expr.identifier?_unplaced (expr : Expr) : expr.unplaced.identifier? = expr.identifier? := by
  cases expr <;> simp [Expr.unplaced, Expr.identifier?]

namespace Parser

def Derivation.unplaced : Derivation → Derivation
  | pointer qualifiers => pointer qualifiers
  | array size => array (size.map Expr.unplaced)
  | function parameters isVariadic => function (parameters.map Parameter.unplaced) isVariadic

theorem Derivation.unplaced_apply (type : CType) (layer : Derivation) :
    (layer.apply type).unplaced = layer.unplaced.apply type.unplaced := by
  cases layer with
  | pointer qualifiers => simp [Derivation.apply, Derivation.unplaced, CType.unplaced]
  | array size => cases size <;> simp [Derivation.apply, Derivation.unplaced, CType.unplaced]
  | function parameters isVariadic =>
    simp [Derivation.apply, Derivation.unplaced, CType.unplaced]

theorem Derivation.unplaced_foldl (type : CType) (layers : List Derivation) :
    (layers.foldl Derivation.apply type).unplaced =
      (layers.map Derivation.unplaced).foldl Derivation.apply type.unplaced := by
  induction layers generalizing type with
  | nil => rfl
  | cons layer layers ih =>
    rw [List.foldl_cons, ih, Derivation.unplaced_apply, List.map_cons, List.foldl_cons]

def Declarator.unplaced (declared : Declarator) : Declarator :=
  ⟨declared.name, declared.derivations.map Derivation.unplaced⟩

theorem Declarator.unplaced_typeFrom (declared : Declarator) (base : CType) :
    (declared.typeFrom base).unplaced = declared.unplaced.typeFrom base.unplaced :=
  Derivation.unplaced_foldl base declared.derivations

end Parser

end InlineMacro
