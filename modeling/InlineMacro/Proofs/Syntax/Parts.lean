import InlineMacro.Proofs.Syntax.Induction
import InlineMacro.Syntax.Node

/-!
# The statements inside a statement

Among the nodes of types and expressions there is no statement, so the statements among the nodes
of a statement are itself and those inside its own parts.
-/

set_option autoImplicit false

namespace InlineMacro

namespace Node

def statement? : Node → Option Statement
  | .statement part => some part
  | _ => none

def statements (nodes : List Node) : List Statement := nodes.filterMap statement?

@[simp] theorem statements_append (first second : List Node) :
    statements (first ++ second) = statements first ++ statements second :=
  List.filterMap_append

@[simp] theorem statements_nil : statements [] = [] := rfl

@[simp] theorem statements_cons_statement (statement : Statement) (nodes : List Node) :
    statements (.statement statement :: nodes) = statement :: statements nodes := rfl

end Node

/-! ## Lists of parts -/

def Designator.nodes : Designator → List Node
  | .index value => value.nodes
  | .member _ => []

theorem Expr.listNodes_eq (values : List Expr) : Expr.listNodes values = values.flatMap Expr.nodes := by
  induction values with
  | nil => rw [Expr.listNodes, List.flatMap_nil]
  | cons value values ih => rw [Expr.listNodes, ih, List.flatMap_cons]

theorem Initializer.listNodes_eq (items : List Initializer) :
    Initializer.listNodes items = items.flatMap Initializer.nodes := by
  induction items with
  | nil => rw [Initializer.listNodes, List.flatMap_nil]
  | cons item items ih => rw [Initializer.listNodes, ih, List.flatMap_cons]

theorem Designator.listNodes_eq (designators : List Designator) :
    Designator.listNodes designators = designators.flatMap Designator.nodes := by
  induction designators with
  | nil => rw [Designator.listNodes, List.flatMap_nil]
  | cons designator designators ih =>
    cases designator <;> rw [Designator.listNodes, ih, List.flatMap_cons, Designator.nodes]
    rw [List.nil_append]

theorem Parameter.listNodes_eq (parameters : List Parameter) :
    Parameter.listNodes parameters = parameters.flatMap fun parameter => parameter.type.nodes := by
  induction parameters with
  | nil => rw [Parameter.listNodes, List.flatMap_nil]
  | cons parameter parameters ih =>
    obtain ⟨name, type, span⟩ := parameter
    rw [Parameter.listNodes, ih, List.flatMap_cons]

theorem Field.listNodes_eq (fields : List Field) : Field.listNodes fields =
    fields.flatMap fun field => field.type.nodes ++ optionalNodes Expr.nodes field.width := by
  induction fields with
  | nil => rw [Field.listNodes, List.flatMap_nil]
  | cons field fields ih =>
    obtain ⟨name, type, width⟩ := field
    cases width <;> rw [Field.listNodes, ih, List.flatMap_cons, optionalNodes]
    rw [List.append_nil]

theorem Enumerator.listNodes_eq (constants : List Enumerator) : Enumerator.listNodes constants =
    constants.flatMap fun constant => optionalNodes Expr.nodes constant.value := by
  induction constants with
  | nil => rw [Enumerator.listNodes, List.flatMap_nil]
  | cons constant constants ih =>
    obtain ⟨name, value⟩ := constant
    cases value <;> rw [Enumerator.listNodes, ih, List.flatMap_cons, optionalNodes]
    rw [List.nil_append]

theorem Statement.listNodes_eq (statements : List Statement) :
    Statement.listNodes statements = statements.flatMap Statement.nodes := by
  induction statements with
  | nil => rw [Statement.listNodes, List.flatMap_nil]
  | cons statement statements ih => rw [Statement.listNodes, ih, List.flatMap_cons]

/-! ## Types and expressions -/

mutual

@[simp] theorem CType.statements_nodes : ∀ type : CType, Node.statements type.nodes = []
  | .basic _ | .record _ _ none | .enumeration _ none | .named _ => rfl
  | .pointer _ target => target.statements_nodes
  | .array element none => element.statements_nodes
  | .array element (some size) =>
    (Node.statements_append _ _).trans
      (List.append_eq_nil_iff.mpr ⟨element.statements_nodes, size.statements_nodes⟩)
  | .function result parameters _ =>
    (Node.statements_append _ _).trans
      (List.append_eq_nil_iff.mpr ⟨result.statements_nodes, Parameter.statements_nodes parameters⟩)
  | .record _ _ (some fields) => Field.statements_nodes fields
  | .enumeration _ (some enumerators) => Enumerator.statements_nodes enumerators
  | .qualified _ inner => inner.statements_nodes

theorem Parameter.statements_nodes : ∀ parameters : List Parameter,
    Node.statements (Parameter.listNodes parameters) = []
  | [] => rfl
  | ⟨_, type, _⟩ :: rest => by
    rw [Parameter.listNodes, Node.statements_append, type.statements_nodes,
      Parameter.statements_nodes rest, List.append_nil]

theorem Field.statements_nodes : ∀ fields : List Field, Node.statements (Field.listNodes fields) = []
  | [] => rfl
  | ⟨_, type, none⟩ :: rest => by
    rw [Field.listNodes, Node.statements_append, type.statements_nodes,
      Field.statements_nodes rest, List.append_nil]
  | ⟨_, type, some width⟩ :: rest => by
    rw [Field.listNodes, Node.statements_append, Node.statements_append, type.statements_nodes,
      width.statements_nodes, Field.statements_nodes rest, List.append_nil, List.append_nil]

theorem Enumerator.statements_nodes : ∀ enumerators : List Enumerator,
    Node.statements (Enumerator.listNodes enumerators) = []
  | [] => rfl
  | ⟨_, none⟩ :: rest => Enumerator.statements_nodes rest
  | ⟨_, some value⟩ :: rest => by
    rw [Enumerator.listNodes, Node.statements_append, value.statements_nodes,
      Enumerator.statements_nodes rest, List.append_nil]

@[simp] theorem Expr.statements_nodes : ∀ value : Expr, Node.statements value.nodes = []
  | .intLiteral .. | .floatLiteral .. | .charLiteral .. | .stringLiteral .. | .identifier .. => rfl
  | .call _ function arguments =>
    (Node.statements_append _ _).trans
      (List.append_eq_nil_iff.mpr ⟨function.statements_nodes, Expr.statements_listNodes arguments⟩)
  | .binary _ _ left right =>
    (Node.statements_append _ _).trans
      (List.append_eq_nil_iff.mpr ⟨left.statements_nodes, right.statements_nodes⟩)
  | .unary _ _ operand => operand.statements_nodes
  | .member _ object _ _ => object.statements_nodes
  | .conditional _ condition thenValue elseValue => by
    change Node.statements (condition.nodes ++ thenValue.nodes ++ elseValue.nodes) = []
    rw [Node.statements_append, Node.statements_append, condition.statements_nodes,
      thenValue.statements_nodes, elseValue.statements_nodes, List.append_nil, List.append_nil]
  | .cast _ target operand =>
    (Node.statements_append _ _).trans
      (List.append_eq_nil_iff.mpr ⟨target.statements_nodes, operand.statements_nodes⟩)
  | .sizeofExpr _ operand => operand.statements_nodes
  | .sizeofType _ type => type.statements_nodes
  | .compoundLiteral _ type initializer =>
    (Node.statements_append _ _).trans
      (List.append_eq_nil_iff.mpr ⟨type.statements_nodes, initializer.statements_nodes⟩)
  | .comma _ parts => Expr.statements_listNodes parts
  | .typeArgument _ type => type.statements_nodes

theorem Expr.statements_listNodes : ∀ values : List Expr, Node.statements (Expr.listNodes values) = []
  | [] => rfl
  | value :: values => by
    rw [Expr.listNodes, Node.statements_append, value.statements_nodes,
      Expr.statements_listNodes values, List.append_nil]

@[simp] theorem Initializer.statements_nodes : ∀ initializer : Initializer,
    Node.statements initializer.nodes = []
  | .expression _ value => value.statements_nodes
  | .list _ items => Initializer.statements_listNodes items
  | .designated _ designators initializer =>
    (Node.statements_append _ _).trans (List.append_eq_nil_iff.mpr
      ⟨Designator.statements_nodes designators, initializer.statements_nodes⟩)

theorem Initializer.statements_listNodes : ∀ items : List Initializer,
    Node.statements (Initializer.listNodes items) = []
  | [] => rfl
  | item :: items => by
    rw [Initializer.listNodes, Node.statements_append, item.statements_nodes,
      Initializer.statements_listNodes items, List.append_nil]

theorem Designator.statements_nodes : ∀ designators : List Designator,
    Node.statements (Designator.listNodes designators) = []
  | [] => rfl
  | .index index :: rest => by
    rw [Designator.listNodes, Node.statements_append, index.statements_nodes,
      Designator.statements_nodes rest, List.append_nil]
  | .member _ :: rest => Designator.statements_nodes rest

end

@[simp] theorem Expr.statements_optionalNodes (part : Option Expr) :
    Node.statements (optionalNodes Expr.nodes part) = [] := by
  cases part with
  | none => rfl
  | some value => exact value.statements_nodes

theorem Declaration.statements_nodes (declarations : List Declaration) :
    Node.statements (declarations.flatMap Declaration.nodes) = [] := by
  induction declarations with
  | nil => rfl
  | cons first rest ih =>
    have own : Node.statements first.nodes = [] := by
      change Node.statements (first.type.nodes ++ optionalNodes Initializer.nodes _) = []
      cases first.initializer <;> simp [optionalNodes]
    rw [List.flatMap_cons, Node.statements_append, own, ih, List.append_nil]

/-! ## Statements -/

namespace Statement

def parts (statement : Statement) : List Statement := Node.statements statement.nodes

def listParts (statements : List Statement) : List Statement := statements.flatMap parts

section Parts

variable (span : Span)

theorem listParts_eq (statements : List Statement) :
    Node.statements (listNodes statements) = listParts statements := by
  induction statements with
  | nil => rfl
  | cons first rest ih => rw [listNodes, Node.statements_append, ih]; rfl

@[simp] theorem parts_block (statements : List Statement) :
    (block span statements).parts = .block span statements :: listParts statements :=
  congrArg _ (listParts_eq statements)

@[simp] theorem parts_expression (value : Expr) : (expression span value).parts = [.expression span value] :=
  congrArg _ value.statements_nodes

@[simp] theorem parts_declaration (declarations : List Declaration) :
    (declaration span declarations).parts = [.declaration span declarations] :=
  congrArg _ (Declaration.statements_nodes declarations)

@[simp] theorem parts_typeDefinition (type : CType) :
    (typeDefinition span type).parts = [.typeDefinition span type] :=
  congrArg _ type.statements_nodes

@[simp] theorem parts_returnStatement (value : Option Expr) :
    (returnStatement span value).parts = [.returnStatement span value] :=
  congrArg _ (Expr.statements_optionalNodes value)

@[simp] theorem parts_ifThen (condition : Expr) (thenBranch : Statement) :
    (ifElse span condition thenBranch none).parts =
      .ifElse span condition thenBranch none :: thenBranch.parts := by
  change _ :: Node.statements (condition.nodes ++ thenBranch.nodes ++ []) = _
  simp [parts]

@[simp] theorem parts_ifElse (condition : Expr) (thenBranch elseBranch : Statement) :
    (ifElse span condition thenBranch (some elseBranch)).parts =
      .ifElse span condition thenBranch (some elseBranch) :: (thenBranch.parts ++ elseBranch.parts) := by
  change _ :: Node.statements (condition.nodes ++ thenBranch.nodes ++ elseBranch.nodes) = _
  simp [parts]

@[simp] theorem parts_whileLoop (condition : Expr) (body : Statement) :
    (whileLoop span condition body).parts = .whileLoop span condition body :: body.parts := by
  change _ :: Node.statements (condition.nodes ++ body.nodes) = _
  simp [parts]

@[simp] theorem parts_bareLoop (condition update : Option Expr) (body : Statement) :
    (forLoop span none condition update body).parts =
      .forLoop span none condition update body :: body.parts := by
  change _ :: Node.statements ([] ++ optionalNodes Expr.nodes condition ++
    optionalNodes Expr.nodes update ++ body.nodes) = _
  simp [parts]

@[simp] theorem parts_forLoop (init : Statement) (condition update : Option Expr) (body : Statement) :
    (forLoop span (some init) condition update body).parts =
      .forLoop span (some init) condition update body :: (init.parts ++ body.parts) := by
  change _ :: Node.statements (init.nodes ++ optionalNodes Expr.nodes condition ++
    optionalNodes Expr.nodes update ++ body.nodes) = _
  simp [parts]

@[simp] theorem parts_doWhile (body : Statement) (condition : Expr) :
    (doWhile span body condition).parts = .doWhile span body condition :: body.parts := by
  change _ :: Node.statements (body.nodes ++ condition.nodes) = _
  simp [parts]

@[simp] theorem parts_switch (subject : Expr) (body : Statement) :
    (switch span subject body).parts = .switch span subject body :: body.parts := by
  change _ :: Node.statements (subject.nodes ++ body.nodes) = _
  simp [parts]

@[simp] theorem parts_caseLabel (value : Expr) (statement : Statement) :
    (caseLabel span value statement).parts = .caseLabel span value statement :: statement.parts := by
  change _ :: Node.statements (value.nodes ++ statement.nodes) = _
  simp [parts]

end Parts

@[simp] theorem parts_defaultLabel (span : Span) (statement : Statement) :
    (defaultLabel span statement).parts = .defaultLabel span statement :: statement.parts := rfl

@[simp] theorem parts_labelled (span : Span) (label : String) (statement : Statement) :
    (labelled span label statement).parts = .labelled span label statement :: statement.parts := rfl

@[simp] theorem parts_gotoStatement (span : Span) (label : String) :
    (gotoStatement span label).parts = [.gotoStatement span label] := rfl

@[simp] theorem parts_breakStatement (span : Span) :
    (breakStatement span).parts = [.breakStatement span] := rfl

@[simp] theorem parts_continueStatement (span : Span) :
    (continueStatement span).parts = [.continueStatement span] := rfl

@[simp] theorem parts_empty (span : Span) : (empty span).parts = [.empty span] := rfl

theorem self_mem_parts (statement : Statement) : statement ∈ statement.parts := by
  cases statement <;> exact List.mem_cons_self

def label? : Statement → Option String
  | .labelled _ label _ => some label
  | _ => none

def labels (statement : Statement) : List String := statement.parts.filterMap label?

def isJump : Statement → Bool
  | .gotoStatement .. | .labelled .. => true
  | _ => false

end Statement

end InlineMacro
