import InlineMacro.Proofs.Scope.NodeUse
import Mathlib.Algebra.Group.Prod
import Mathlib.Algebra.Order.Group.Multiset
import Mathlib.Tactic.Abel

/-!
# Names and bodies in a tree

What a tree is made of, in no particular order: the names that stand in it, and the records and
enumerations that are given their bodies in it. A derived type is made of the same as its parts,
whatever the order in which a declarator has them.
-/

set_option autoImplicit false

namespace InlineMacro

def Node.body? : Node → Option CType
  | .type (.record kind tag (some fields)) => some (.record kind tag (some fields))
  | .type (.enumeration tag (some enumerators)) => some (.enumeration tag (some enumerators))
  | _ => none

def CType.bodies (type : CType) : List CType := type.nodes.filterMap Node.body?

def CType.isTagless : CType → Bool
  | .record _ none _ | .enumeration none _ => true
  | _ => false

abbrev Content := Multiset String × Multiset CType

namespace Content

def ofNames (names : List String) : Content := (names, 0)

def ofName (name : String) : Content := ofNames [name]

def ofOption (name : Option String) : Content := ofNames name.toList

def ofBody (type : CType) : Content := (0, {type})

def tagless (content : Content) : Multiset CType := content.2.filter fun type => type.isTagless

theorem ofNames_append (first second : List String) :
    ofNames (first ++ second) = ofNames first + ofNames second := rfl

theorem ofNames_filterMap_cons {α : Type} (name : α → Option String) (part : α) (parts : List α) :
    ofNames ((part :: parts).filterMap name) = ofOption (name part) + ofNames (parts.filterMap name) := by
  rw [List.filterMap_cons]
  cases name part with
  | none => exact (zero_add _).symm
  | some name => rfl

@[simp] theorem ofOption_none : ofOption none = 0 := rfl

theorem tagless_add (first second : Content) : (first + second).tagless = first.tagless + second.tagless :=
  Multiset.filter_add _ _ _

end Content

/-! ## Nodes -/

def Node.content (node : Node) : Content := (node.names, node.body?.toList)

def Node.contents (nodes : List Node) : Content := (nodes.map Node.content).sum

namespace Node

@[simp] theorem contents_nil : contents [] = 0 := rfl

@[simp] theorem contents_cons (node : Node) (nodes : List Node) :
    contents (node :: nodes) = node.content + contents nodes :=
  List.sum_cons

@[simp] theorem contents_append (first second : List Node) :
    contents (first ++ second) = contents first + contents second := by
  induction first with
  | nil => exact (zero_add _).symm
  | cons node nodes ih => rw [List.cons_append, contents_cons, ih, contents_cons, add_assoc]

@[simp] theorem contents_flatMap {α : Type} (parts : List α) (nodes : α → List Node) :
    contents (parts.flatMap nodes) = (parts.map fun part => contents (nodes part)).sum := by
  induction parts with
  | nil => rfl
  | cons part parts ih => rw [List.flatMap_cons, contents_append, ih, List.map_cons, List.sum_cons]

theorem contents_names (nodes : List Node) : (contents nodes).1 = allNames nodes := by
  induction nodes with
  | nil => rfl
  | cons node nodes ih =>
    rw [contents_cons, Prod.fst_add, ih]
    exact Multiset.coe_add _ _

theorem contents_bodies (nodes : List Node) : (contents nodes).2 = nodes.filterMap body? := by
  induction nodes with
  | nil => rfl
  | cons node nodes ih =>
    rw [contents_cons, Prod.snd_add, ih, List.filterMap_cons]
    cases body : node.body? with
    | none => simp [content, body]
    | some type => simp [content, body]

end Node

/-! ## The contents of trees -/

def CType.content (type : CType) : Content := Node.contents type.nodes

def Expr.content (value : Expr) : Content := Node.contents value.nodes

def Initializer.content (initializer : Initializer) : Content := Node.contents initializer.nodes

def Designator.content (designator : Designator) : Content :=
  Node.contents (Designator.listNodes [designator])

def optionalContent {α : Type} (content : α → Content) (part : Option α) : Content :=
  (part.map content).getD 0

def listContent {α : Type} (content : α → Content) (parts : List α) : Content :=
  (parts.map content).sum

def Parameter.content (parameter : Parameter) : Content :=
  .ofOption parameter.name + parameter.type.content

def Field.content (field : Field) : Content :=
  .ofOption field.name + field.type.content + optionalContent Expr.content field.width

def Enumerator.content (enumerator : Enumerator) : Content :=
  .ofName enumerator.name + optionalContent Expr.content enumerator.value

def Declaration.content (declaration : Declaration) : Content :=
  .ofName declaration.name + declaration.type.content +
    optionalContent Initializer.content declaration.initializer

def Statement.content (statement : Statement) : Content := Node.contents statement.nodes

def Item.content (item : Item) : Content := Node.contents item.nodes

section Parts

variable {α : Type} (content : α → Content)

@[simp] theorem optionalContent_none : optionalContent content none = 0 := rfl

@[simp] theorem optionalContent_some (value : α) : optionalContent content (some value) = content value := rfl

@[simp] theorem listContent_nil : listContent content [] = 0 := rfl

@[simp] theorem listContent_cons (value : α) (values : List α) :
    listContent content (value :: values) = content value + listContent content values :=
  List.sum_cons

@[simp] theorem listContent_append (first second : List α) : listContent content (first ++ second) =
      listContent content first + listContent content second := by
  induction first with
  | nil => exact (zero_add _).symm
  | cons value values ih =>
    rw [List.cons_append, listContent_cons, ih, listContent_cons, add_assoc]

theorem listContent_flatten (groups : List (List α)) :
    listContent content groups.flatten = listContent (listContent content) groups := by
  induction groups with
  | nil => rfl
  | cons group groups ih => rw [List.flatten_cons, listContent_append, ih, listContent_cons]

theorem contents_optionalNodes (nodes : α → List Node) (part : Option α) :
    Node.contents (optionalNodes nodes part) =
      optionalContent (fun value => Node.contents (nodes value)) part := by
  cases part <;> rfl

end Parts

/-! ## Types -/

section Types

theorem Expr.contents_listNodes (values : List Expr) :
    Node.contents (Expr.listNodes values) = listContent Expr.content values := by
  induction values with
  | nil => rfl
  | cons value values ih =>
    rw [Expr.listNodes, Node.contents_append, ih, listContent_cons]
    rfl

theorem Initializer.contents_listNodes (items : List Initializer) :
    Node.contents (Initializer.listNodes items) = listContent Initializer.content items := by
  induction items with
  | nil => rfl
  | cons item items ih =>
    rw [Initializer.listNodes, Node.contents_append, ih, listContent_cons]
    rfl

theorem Designator.contents_listNodes (designators : List Designator) :
    Node.contents (Designator.listNodes designators) = listContent Designator.content designators := by
  induction designators with
  | nil => rfl
  | cons designator rest ih =>
    cases designator with
    | index value =>
      rw [Designator.listNodes, Node.contents_append, ih, listContent_cons, content,
        Designator.listNodes, Node.contents_append]
      exact congrArg (· + _) (add_zero _).symm
    | member name =>
      rw [Designator.listNodes, ih, listContent_cons]
      exact (zero_add _).symm

theorem Parameter.listContent_eq (parameters : List Parameter) : listContent Parameter.content parameters =
      .ofNames (parameters.filterMap Parameter.name) + Node.contents (Parameter.listNodes parameters) := by
  induction parameters with
  | nil => rfl
  | cons parameter rest ih =>
    obtain ⟨name, type, span⟩ := parameter
    rw [listContent_cons, ih, listNodes, Node.contents_append, content, CType.content,
      Content.ofNames_filterMap_cons]
    abel

theorem Field.listContent_eq (fields : List Field) : listContent Field.content fields =
      .ofNames (fields.filterMap Field.name) + Node.contents (Field.listNodes fields) := by
  induction fields with
  | nil => rfl
  | cons field rest ih =>
    obtain ⟨name, type, width⟩ := field
    have inside : Node.contents (listNodes (⟨name, type, width⟩ :: rest)) =
        type.content + optionalContent Expr.content width + Node.contents (listNodes rest) := by
      cases width with
      | none =>
        rw [listNodes, Node.contents_append, optionalContent_none, add_zero]
        rfl
      | some width =>
        rw [listNodes, Node.contents_append, Node.contents_append]
        rfl
    rw [listContent_cons, ih, inside, content, Content.ofNames_filterMap_cons]
    abel

theorem Enumerator.listContent_eq (enumerators : List Enumerator) :
    listContent Enumerator.content enumerators = .ofNames (enumerators.map Enumerator.name) +
        Node.contents (Enumerator.listNodes enumerators) := by
  induction enumerators with
  | nil => rfl
  | cons enumerator rest ih =>
    obtain ⟨name, value⟩ := enumerator
    have inside : Node.contents (listNodes (⟨name, value⟩ :: rest)) =
        optionalContent Expr.content value + Node.contents (listNodes rest) := by
      cases value with
      | none => exact (zero_add _).symm
      | some value =>
        rw [listNodes, Node.contents_append]
        rfl
    rw [listContent_cons, ih, inside, content, List.map_cons, ← List.singleton_append,
      Content.ofNames_append, Content.ofName]
    abel

theorem CType.content_function (result : CType) (parameters : List Parameter)
    (isVariadic : Bool) : (CType.function result parameters isVariadic).content =
      result.content + listContent Parameter.content parameters := by
  change Node.contents (_ :: _) = _
  rw [Node.contents_cons, Node.contents_append, Parameter.listContent_eq]
  exact add_left_comm _ _ _

theorem CType.content_array (element : CType) (size : Option Expr) :
    (CType.array element size).content = element.content + optionalContent Expr.content size := by
  cases size with
  | none =>
    change Node.contents (_ :: _) = _
    rw [Node.contents_cons, optionalContent_none, add_zero]
    exact zero_add _
  | some size =>
    change Node.contents (_ :: _) = _
    rw [Node.contents_cons, Node.contents_append]
    exact zero_add _

theorem CType.content_pointer (qualifiers : Qualifiers) (target : CType) :
    (CType.pointer qualifiers target).content = target.content := zero_add _

theorem CType.content_qualified (qualifiers : Qualifiers) (inner : CType) :
    (CType.qualified qualifiers inner).content = inner.content := zero_add _

theorem CType.content_reference (kind : RecordKind) (tag : Option String) :
    (CType.record kind tag none).content = .ofOption tag := by
  simp [content, nodes, Node.content, Node.names, Node.body?, Content.ofOption, Content.ofNames]

theorem CType.content_record (kind : RecordKind) (tag : Option String) (fields : List Field) :
    (CType.record kind tag (some fields)).content = .ofOption tag + listContent Field.content fields +
        .ofBody (.record kind tag (some fields)) := by
  have own : (Node.type (.record kind tag (some fields))).content =
      Content.ofOption tag + .ofNames (fields.filterMap Field.name) +
        .ofBody (.record kind tag (some fields)) := by
    simp [Node.content, Node.names, Node.body?, Content.ofOption, Content.ofNames, Content.ofBody]
  change Node.contents (_ :: _) = _
  rw [Node.contents_cons, own, Field.listContent_eq]
  abel

theorem CType.content_enumerationReference (tag : Option String) :
    (CType.enumeration tag none).content = .ofOption tag := by
  simp [content, nodes, Node.content, Node.names, Node.body?, Content.ofOption, Content.ofNames]

theorem CType.content_enumeration (tag : Option String) (enumerators : List Enumerator) :
    (CType.enumeration tag (some enumerators)).content =
      .ofOption tag + listContent Enumerator.content enumerators +
        .ofBody (.enumeration tag (some enumerators)) := by
  have own : (Node.type (.enumeration tag (some enumerators))).content =
      Content.ofOption tag + .ofNames (enumerators.map Enumerator.name) +
        .ofBody (.enumeration tag (some enumerators)) := by
    simp [Node.content, Node.names, Node.body?, Content.ofOption, Content.ofNames, Content.ofBody]
  change Node.contents (_ :: _) = _
  rw [Node.contents_cons, own, Enumerator.listContent_eq]
  abel

end Types

/-! ## Expressions and initializers -/

section Expressions

variable (span : Span)

theorem Expr.content_binary (operator : BinaryOperator) (left right : Expr) :
    (Expr.binary span operator left right).content = left.content + right.content := by
  change Node.contents (_ :: _) = _
  rw [Node.contents_cons, Node.contents_append]
  exact zero_add _

theorem Expr.content_unary (operator : UnaryOperator) (operand : Expr) :
    (Expr.unary span operator operand).content = operand.content := zero_add _

theorem Expr.content_call (function : Expr) (arguments : List Expr) :
    (Expr.call span function arguments).content = function.content + listContent Expr.content arguments := by
  change Node.contents (_ :: _) = _
  rw [Node.contents_cons, Node.contents_append, contents_listNodes]
  exact zero_add _

theorem Expr.content_member (object : Expr) (name : String) (throughPointer : Bool) :
    (Expr.member span object name throughPointer).content = .ofName name + object.content := rfl

theorem Expr.content_conditional (condition thenValue elseValue : Expr) :
    (Expr.conditional span condition thenValue elseValue).content =
      condition.content + thenValue.content + elseValue.content := by
  change Node.contents (_ :: _) = _
  rw [Node.contents_cons, Node.contents_append, Node.contents_append]
  exact zero_add _

theorem Expr.content_cast (target : CType) (operand : Expr) :
    (Expr.cast span target operand).content = target.content + operand.content := by
  change Node.contents (_ :: _) = _
  rw [Node.contents_cons, Node.contents_append]
  exact zero_add _

theorem Expr.content_sizeofExpr (operand : Expr) :
    (Expr.sizeofExpr span operand).content = operand.content := zero_add _

theorem Expr.content_sizeofType (type : CType) :
    (Expr.sizeofType span type).content = type.content := zero_add _

theorem Expr.content_compoundLiteral (type : CType) (initializer : Initializer) :
    (Expr.compoundLiteral span type initializer).content = type.content + initializer.content := by
  change Node.contents (_ :: _) = _
  rw [Node.contents_cons, Node.contents_append]
  exact zero_add _

theorem Expr.content_comma (parts : List Expr) :
    (Expr.comma span parts).content = listContent Expr.content parts := by
  change Node.contents (_ :: _) = _
  rw [Node.contents_cons, contents_listNodes]
  exact zero_add _

theorem Expr.content_typeArgument (type : CType) :
    (Expr.typeArgument span type).content = type.content := zero_add _

theorem Initializer.content_expression (value : Expr) :
    (Initializer.expression span value).content = value.content := zero_add _

theorem Initializer.content_list (items : List Initializer) :
    (Initializer.list span items).content = listContent Initializer.content items := by
  change Node.contents (_ :: _) = _
  rw [Node.contents_cons, contents_listNodes]
  exact zero_add _

theorem Initializer.content_designated (designators : List Designator) (initializer : Initializer) :
    (Initializer.designated span designators initializer).content =
      listContent Designator.content designators + initializer.content := by
  change Node.contents (_ :: _) = _
  rw [Node.contents_cons, Node.contents_append, Designator.contents_listNodes]
  exact zero_add _

theorem Designator.content_index (index : Expr) : (Designator.index index).content = index.content := by
  rw [content, listNodes, Node.contents_append]
  exact add_zero _

end Expressions

/-! ## Declarations and statements -/

theorem Declaration.contents_nodes (declaration : Declaration) :
    Node.contents declaration.nodes = declaration.content := by
  rw [nodes, Node.contents_cons, Node.contents_append, contents_optionalNodes, content, add_assoc]
  rfl

section Statements

variable (span : Span)

theorem Statement.contents_listNodes (statements : List Statement) :
    Node.contents (Statement.listNodes statements) = listContent Statement.content statements := by
  induction statements with
  | nil => rfl
  | cons statement statements ih =>
    rw [listNodes, Node.contents_append, ih, listContent_cons]
    rfl

theorem Statement.contents_optionNodes (part : Option Statement) :
    Node.contents (optionNodes part) = optionalContent Statement.content part := by
  cases part <;> rfl

theorem Statement.content_block (statements : List Statement) :
    (Statement.block span statements).content = listContent Statement.content statements := by
  change Node.contents (_ :: _) = _
  rw [Node.contents_cons, contents_listNodes]
  exact zero_add _

theorem Statement.content_declaration (declarations : List Declaration) :
    (Statement.declaration span declarations).content = listContent Declaration.content declarations := by
  change Node.contents (_ :: _) = _
  rw [Node.contents_cons, Node.contents_flatMap]
  simp only [Declaration.contents_nodes]
  exact zero_add _

theorem Statement.content_ifElse (condition : Expr) (thenBranch : Statement) (elseBranch : Option Statement) :
    (Statement.ifElse span condition thenBranch elseBranch).content =
      condition.content + thenBranch.content + optionalContent Statement.content elseBranch := by
  change Node.contents (_ :: _) = _
  rw [Node.contents_cons, Node.contents_append, Node.contents_append, contents_optionNodes]
  exact zero_add _

theorem Statement.content_forLoop (init : Option Statement) (condition update : Option Expr)
    (body : Statement) : (Statement.forLoop span init condition update body).content =
      optionalContent Statement.content init + optionalContent Expr.content condition +
        optionalContent Expr.content update + body.content := by
  change Node.contents (_ :: _) = _
  rw [Node.contents_cons, Node.contents_append, Node.contents_append,
    Node.contents_append, contents_optionNodes, contents_optionalNodes, contents_optionalNodes]
  exact zero_add _

theorem Statement.content_whileLoop (condition : Expr) (body : Statement) :
    (Statement.whileLoop span condition body).content = condition.content + body.content := by
  change Node.contents (_ :: _) = _
  rw [Node.contents_cons, Node.contents_append]
  exact zero_add _

theorem Statement.content_doWhile (body : Statement) (condition : Expr) :
    (Statement.doWhile span body condition).content = body.content + condition.content := by
  change Node.contents (_ :: _) = _
  rw [Node.contents_cons, Node.contents_append]
  exact zero_add _

theorem Statement.content_switch (subject : Expr) (body : Statement) :
    (Statement.switch span subject body).content = subject.content + body.content := by
  change Node.contents (_ :: _) = _
  rw [Node.contents_cons, Node.contents_append]
  exact zero_add _

theorem Statement.content_caseLabel (value : Expr) (statement : Statement) :
    (Statement.caseLabel span value statement).content = value.content + statement.content := by
  change Node.contents (_ :: _) = _
  rw [Node.contents_cons, Node.contents_append]
  exact zero_add _

theorem Statement.content_expression (value : Expr) :
    (Statement.expression span value).content = value.content := zero_add _

theorem Statement.content_typeDefinition (type : CType) :
    (Statement.typeDefinition span type).content = type.content := zero_add _

theorem Statement.content_defaultLabel (statement : Statement) :
    (Statement.defaultLabel span statement).content = statement.content := zero_add _

theorem Statement.content_labelled (label : String) (statement : Statement) :
    (Statement.labelled span label statement).content = .ofName label + statement.content := rfl

theorem Statement.content_returnStatement (value : Option Expr) :
    (Statement.returnStatement span value).content = optionalContent Expr.content value := by
  change Node.contents (_ :: _) = _
  rw [Node.contents_cons, contents_optionalNodes]
  exact zero_add _

end Statements

theorem Item.content_function (definition : Function) : (Item.function definition).content =
      .ofName definition.name + definition.type.content + definition.body.content := by
  have own : (Node.function definition).content =
      Content.ofName definition.name + .ofNames (definition.parameters.filterMap Parameter.name) :=
    rfl
  rw [content, nodes, Function.nodes, Node.contents_cons, Node.contents_append,
    Node.contents_append, own, Function.type, CType.content_function, Parameter.listContent_eq,
    CType.content, Statement.content]
  abel

theorem Item.content_declaration (declared : Declaration) :
    (Item.declaration declared).content = declared.content := declared.contents_nodes

end InlineMacro
