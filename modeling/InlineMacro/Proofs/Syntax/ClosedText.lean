import InlineMacro.Macroize
import InlineMacro.Proofs.Syntax.Induction
import InlineMacro.Proofs.Token.Preprocessing

/-!
# Literals in printed text

A tree in which every literal is closed on its own line prints as text in which every literal is closed
on its line: the printer itself writes no quotes and no backslashes.
-/

set_option autoImplicit false

namespace InlineMacro

open Text (isClosed)
open Printer

def Node.spellings : Node → List String
  | .expression (.intLiteral _ spelling) | .expression (.floatLiteral _ spelling)
  | .expression (.charLiteral _ spelling) => [spelling]
  | .expression (.stringLiteral _ pieces) => pieces
  | .initializer (.designated _ designators _) =>
    designators.filterMap fun
      | .member name => some name
      | .index _ => none
  | node => node.names

def Node.Closed (nodes : List Node) : Prop := ∀ node ∈ nodes, ∀ text ∈ node.spellings, isClosed text

instance (nodes : List Node) : Decidable (Node.Closed nodes) :=
  inferInstanceAs (Decidable (∀ node ∈ nodes, ∀ text ∈ node.spellings, isClosed text))

namespace Node

theorem closed_cons {node : Node} {nodes : List Node} :
    Closed (node :: nodes) ↔ (∀ text ∈ node.spellings, isClosed text) ∧ Closed nodes :=
  List.forall_mem_cons

theorem closed_append {first second : List Node} : Closed (first ++ second) ↔ Closed first ∧ Closed second :=
  List.forall_mem_append

end Node

/-! ## Texts -/

namespace Text

variable {first second separator : String} {texts : List String}

theorem isClosed_append (front : isClosed first) (back : isClosed second) : isClosed (first ++ second) := by
  rw [isClosed, String.toList_append]
  exact Quoting.closes_append front back

theorem isClosed_joined (each : ∀ text ∈ texts, isClosed text) : isClosed (String.join texts) := by
  induction texts with
  | nil => rfl
  | cons text texts ih =>
    rw [List.forall_mem_cons] at each
    rw [String.join_cons]
    exact isClosed_append each.1 (ih each.2)

theorem isClosed_join (between : isClosed separator) (each : ∀ text ∈ texts, isClosed text) :
    isClosed (join separator texts) := by
  induction texts with
  | nil => rfl
  | cons text texts ih =>
    rw [List.forall_mem_cons] at each
    cases texts with
    | nil => exact each.1
    | cons => exact isClosed_append (isClosed_append each.1 between) (ih each.2)

theorem isClosed_repeated (once : isClosed first) (count : Nat) : isClosed (repeated first count) := by
  induction count with
  | zero => rfl
  | succ count ih => exact isClosed_append once ih

end Text

open Text (isClosed_append isClosed_joined isClosed_join isClosed_repeated)

namespace Printer

variable {text inner : String}

theorem isClosed_indentation (depth : Nat) : isClosed (indentation depth) :=
  isClosed_repeated (by decide) depth

theorem isClosed_line (depth : Nat) (closed : isClosed text) : isClosed (line depth text) :=
  isClosed_append (isClosed_indentation depth) closed

theorem isClosed_parenthesized (needed : Bool) (closed : isClosed text) :
    isClosed (parenthesized needed text) := by
  unfold parenthesized
  split
  · exact isClosed_append (isClosed_append (by decide) closed) (by decide)
  · exact closed

theorem isClosed_signBefore (sign : isClosed inner) (closed : isClosed text) :
    isClosed (signBefore inner text) := by
  unfold signBefore
  split
  · split
    · exact isClosed_append (isClosed_append sign (by decide)) closed
    · exact isClosed_append sign closed
  · exact isClosed_append sign closed

theorem isClosed_specifiersAnd {parts : String × String} (closed : isClosed parts.1 ∧ isClosed parts.2) :
    isClosed (specifiersAnd parts) := by
  unfold specifiersAnd
  split
  · exact closed.1
  · exact isClosed_append (isClosed_append closed.1 (by decide)) closed.2

theorem isClosed_qualifiers (qualifiers : Qualifiers) : isClosed qualifiers.text := by
  obtain ⟨isConst, isVolatile, isRestrict⟩ := qualifiers
  cases isConst <;> cases isVolatile <;> cases isRestrict <;> decide

theorem isClosed_pointerText (qualifiers : Qualifiers) (closed : isClosed inner) :
    isClosed (pointerText qualifiers inner) := by
  unfold pointerText
  split
  · exact isClosed_append (by decide) closed
  · split
    · exact isClosed_append (by decide) (isClosed_qualifiers qualifiers)
    · exact isClosed_append (isClosed_append (isClosed_append (by decide)
        (isClosed_qualifiers qualifiers)) (by decide)) closed

theorem isClosed_tagText {keyword : String} {tag : Option String} (word : isClosed keyword)
    (closed : ∀ name ∈ tag, isClosed name) : isClosed (tagText keyword tag) := by
  cases tag with
  | none => exact word
  | some name => exact isClosed_append (isClosed_append word (by decide)) (closed name rfl)

theorem isClosed_bodyText (depth : Nat) {entries : List String}
    (each : ∀ entry ∈ entries, isClosed entry) : isClosed (bodyText depth entries) := by
  refine isClosed_append (isClosed_append (isClosed_append (by decide) (isClosed_joined ?_))
    (isClosed_indentation depth)) (by decide)
  exact List.forall_mem_map.mpr fun entry member =>
    isClosed_append (isClosed_append (isClosed_indentation _) (each entry member)) (by decide)

theorem isClosed_withCommas {entries : List String} (each : ∀ entry ∈ entries, isClosed entry) :
    ∀ entry ∈ withCommas entries, isClosed entry := by
  induction entries with
  | nil => exact nofun
  | cons entry entries ih =>
    rw [List.forall_mem_cons] at each
    cases entries with
    | nil => exact List.forall_mem_singleton.mpr each.1
    | cons => exact List.forall_mem_cons.mpr ⟨isClosed_append each.1 (by decide), ih each.2⟩

theorem isClosed_qualifiedSpecifier (pending : Option Qualifiers) (closed : isClosed text) :
    isClosed (qualifiedSpecifier pending text) := by
  cases pending with
  | none => exact closed
  | some qualifiers =>
    exact isClosed_append (isClosed_append (isClosed_qualifiers qualifiers) (by decide)) closed

theorem isClosed_specifier (kind : BasicType) : isClosed kind.specifier := by
  cases kind <;> decide

theorem isClosed_recordKeyword (kind : RecordKind) : isClosed kind.keyword := by
  cases kind <;> decide

theorem isClosed_symbol (operator : BinaryOperator) : isClosed operator.symbol := by
  cases operator <;> decide

theorem isClosed_sign (operator : UnaryOperator) : isClosed operator.symbol := by
  cases operator <;> decide

end Printer

/-! ## Trees -/

open Node (Closed closed_cons closed_append)

mutual

theorem Expr.isClosed_exprText (depth minimum : Nat) : ∀ value : Expr, Closed value.nodes →
    isClosed (exprText depth minimum value)
  | .intLiteral _ spelling, closed | .floatLiteral _ spelling, closed
  | .charLiteral _ spelling, closed => (closed_cons.mp closed).1 spelling (List.mem_singleton_self _)
  | .stringLiteral _ pieces, closed => isClosed_join (by decide) (closed_cons.mp closed).1
  | .identifier _ name, closed => (closed_cons.mp closed).1 name (List.mem_singleton_self _)
  | .binary _ operator left right, closed => by
    obtain ⟨first, second⟩ := closed_append.mp (closed_cons.mp closed).2
    have first (minimum : Nat) := left.isClosed_exprText depth minimum first
    have second (minimum : Nat) := right.isClosed_exprText depth minimum second
    have symbol := isClosed_symbol operator
    have between := isClosed_append (isClosed_append (by decide : isClosed " ") symbol)
      (by decide : isClosed " ")
    rw [exprText]
    split
    · exact isClosed_parenthesized _ (isClosed_append (isClosed_append
        (isClosed_append (first _) (by decide)) (second _)) (by decide))
    · split <;> exact isClosed_parenthesized _ (isClosed_append (isClosed_append (isClosed_append
        (isClosed_append (first _) (by decide)) symbol) (by decide)) (second _))
  | .unary _ operator operand, closed => by
    have inner (minimum : Nat) := operand.isClosed_exprText depth minimum (closed_cons.mp closed).2
    rw [exprText]
    split
    · exact isClosed_parenthesized _ (isClosed_append (inner _) (isClosed_sign operator))
    · exact isClosed_parenthesized _ (isClosed_signBefore (isClosed_sign operator) (inner _))
  | .call _ function arguments, closed => by
    obtain ⟨callee, given⟩ := closed_append.mp (closed_cons.mp closed).2
    rw [exprText]
    exact isClosed_parenthesized _ (isClosed_append (isClosed_append (isClosed_append
      (function.isClosed_exprText depth _ callee) (by decide))
      (isClosed_join (by decide) (Expr.isClosed_exprTexts depth arguments given))) (by decide))
  | .member _ object name throughPointer, closed => by
    obtain ⟨own, inner⟩ := closed_cons.mp closed
    rw [exprText]
    refine isClosed_parenthesized _ (isClosed_append (isClosed_append
      (object.isClosed_exprText depth _ inner) ?_) (own name (List.mem_singleton_self _)))
    cases throughPointer <;> decide
  | .conditional _ condition thenValue elseValue, closed => by
    obtain ⟨front, last⟩ := closed_append.mp (closed_cons.mp closed).2
    obtain ⟨first, second⟩ := closed_append.mp front
    rw [exprText]
    exact isClosed_parenthesized _ (isClosed_append (isClosed_append (isClosed_append (isClosed_append
      (condition.isClosed_exprText depth _ first) (by decide))
      (thenValue.isClosed_exprText depth _ second)) (by decide))
      (elseValue.isClosed_exprText depth _ last))
  | .cast _ target operand, closed => by
    obtain ⟨type, inner⟩ := closed_append.mp (closed_cons.mp closed).2
    rw [exprText]
    exact isClosed_parenthesized _ (isClosed_append (isClosed_append (isClosed_append (by decide)
      (isClosed_specifiersAnd (target.isClosed_parts depth none (by decide) type))) (by decide))
      (operand.isClosed_exprText depth _ inner))
  | .sizeofExpr _ operand, closed => by
    rw [exprText]
    exact isClosed_parenthesized _ (isClosed_append (isClosed_append (by decide)
      (operand.isClosed_exprText depth _ (closed_cons.mp closed).2)) (by decide))
  | .sizeofType _ type, closed => by
    rw [exprText]
    exact isClosed_parenthesized _ (isClosed_append (isClosed_append (by decide)
      (isClosed_specifiersAnd (type.isClosed_parts depth none (by decide) (closed_cons.mp closed).2)))
      (by decide))
  | .compoundLiteral _ type initializer, closed => by
    obtain ⟨first, second⟩ := closed_append.mp (closed_cons.mp closed).2
    rw [exprText]
    exact isClosed_parenthesized _ (isClosed_append (isClosed_append (isClosed_append (by decide)
      (isClosed_specifiersAnd (type.isClosed_parts depth none (by decide) first))) (by decide))
      (initializer.isClosed_initializerText depth second))
  | .comma _ parts, closed => by
    rw [exprText]
    exact isClosed_parenthesized _ (isClosed_join (by decide)
      (Expr.isClosed_exprTexts depth parts (closed_cons.mp closed).2))
  | .typeArgument _ type, closed => by
    rw [exprText]
    exact isClosed_specifiersAnd (type.isClosed_parts depth none (by decide) (closed_cons.mp closed).2)

theorem Expr.isClosed_exprTexts (depth : Nat) : ∀ values : List Expr, Closed (Expr.listNodes values) →
    ∀ text ∈ exprTexts depth values, isClosed text
  | [], _ => nofun
  | value :: values, closed => by
    obtain ⟨first, rest⟩ := closed_append.mp closed
    rw [exprTexts]
    exact List.forall_mem_cons.mpr
      ⟨value.isClosed_exprText depth _ first, Expr.isClosed_exprTexts depth values rest⟩

theorem Initializer.isClosed_initializerText (depth : Nat) : ∀ value : Initializer,
    Closed value.nodes → isClosed (initializerText depth value)
  | .expression _ value, closed => by
    rw [initializerText]
    exact value.isClosed_exprText depth _ (closed_cons.mp closed).2
  | .list _ [], _ => by
    rw [initializerText]
    decide
  | .list _ (item :: items), closed => by
    rw [initializerText]
    · exact isClosed_append (isClosed_append (by decide) (isClosed_join (by decide)
        (Initializer.isClosed_initializerTexts depth (item :: items) (closed_cons.mp closed).2)))
        (by decide)
    · exact nofun
  | .designated _ designators value, closed => by
    obtain ⟨own, parts⟩ := closed_cons.mp closed
    obtain ⟨first, second⟩ := closed_append.mp parts
    rw [initializerText]
    exact isClosed_append (isClosed_append
      (Designator.isClosed_designatorsText depth designators own first) (by decide))
      (value.isClosed_initializerText depth second)

theorem Initializer.isClosed_initializerTexts (depth : Nat) : ∀ values : List Initializer,
    Closed (Initializer.listNodes values) → ∀ text ∈ initializerTexts depth values, isClosed text
  | [], _ => nofun
  | value :: values, closed => by
    obtain ⟨first, rest⟩ := closed_append.mp closed
    rw [initializerTexts]
    exact List.forall_mem_cons.mpr ⟨value.isClosed_initializerText depth first,
      Initializer.isClosed_initializerTexts depth values rest⟩

theorem Designator.isClosed_designatorsText (depth : Nat) : ∀ designators : List Designator,
    (∀ text ∈ Node.spellings (.initializer (.designated .synthetic designators
      (.list .synthetic []))), isClosed text) →
    Closed (Designator.listNodes designators) → isClosed (designatorsText depth designators)
  | [], _, _ => by
    rw [designatorsText]
    decide
  | .index index :: rest, own, closed => by
    obtain ⟨first, others⟩ := closed_append.mp closed
    rw [designatorsText]
    exact isClosed_append (isClosed_append (isClosed_append (by decide)
      (index.isClosed_exprText depth _ first)) (by decide))
      (Designator.isClosed_designatorsText depth rest own others)
  | .member name :: rest, own, closed => by
    obtain ⟨first, others⟩ := List.forall_mem_cons.mp own
    rw [designatorsText]
    exact isClosed_append (isClosed_append (by decide) first)
      (Designator.isClosed_designatorsText depth rest others closed)

theorem CType.isClosed_parts (depth : Nat) : ∀ (type : CType) (pending : Option Qualifiers)
    {inner : String}, isClosed inner → Closed type.nodes →
    isClosed (declaratorParts depth pending inner type).1 ∧
      isClosed (declaratorParts depth pending inner type).2
  | .pointer own target, pending, inner, around, closed => by
    rw [declaratorParts]
    exact target.isClosed_parts depth none
      (isClosed_parenthesized _ (isClosed_pointerText _ around)) (closed_cons.mp closed).2
  | .array element none, pending, inner, around, closed => by
    rw [declaratorParts]
    exact element.isClosed_parts depth pending (isClosed_append around (by decide))
      (closed_cons.mp closed).2
  | .array element (some size), pending, inner, around, closed => by
    obtain ⟨first, second⟩ := closed_append.mp (closed_cons.mp closed).2
    rw [declaratorParts]
    exact element.isClosed_parts depth pending (isClosed_append (isClosed_append
      (isClosed_append around (by decide)) (size.isClosed_exprText depth _ second)) (by decide)) first
  | .function result parameters isVariadic, pending, inner, around, closed => by
    obtain ⟨own, parts⟩ := closed_cons.mp closed
    obtain ⟨first, second⟩ := closed_append.mp parts
    have texts : ∀ text ∈ parameterTexts depth parameters ++ (if isVariadic then ["..."] else []),
        isClosed text := by
      refine List.forall_mem_append.mpr ⟨Parameter.isClosed_parameterTexts depth parameters own second, ?_⟩
      cases isVariadic
      · exact nofun
      · exact List.forall_mem_singleton.mpr (by decide)
    rw [declaratorParts]
    exact result.isClosed_parts depth none (isClosed_append (isClosed_append
      (isClosed_append around (by decide)) (isClosed_join (by decide) texts)) (by decide)) first
  | .qualified qualifiers type, pending, inner, around, closed => by
    rw [declaratorParts]
    exact type.isClosed_parts depth (some qualifiers) around (closed_cons.mp closed).2
  | .basic kind, pending, inner, around, _ => by
    rw [declaratorParts]
    exact ⟨isClosed_qualifiedSpecifier pending (isClosed_specifier kind), around⟩
  | .named name, pending, inner, around, closed => by
    rw [declaratorParts]
    exact ⟨isClosed_qualifiedSpecifier pending
      ((closed_cons.mp closed).1 name (List.mem_singleton_self _)), around⟩
  | .record kind tag none, pending, inner, around, closed => by
    have own := (closed_cons.mp closed).1
    rw [declaratorParts]
    exact ⟨isClosed_qualifiedSpecifier pending (isClosed_tagText (isClosed_recordKeyword kind)
      fun name isTag => own name (List.mem_append_left _ (Option.mem_toList.mpr isTag))), around⟩
  | .record kind tag (some fields), pending, inner, around, closed => by
    obtain ⟨own, parts⟩ := closed_cons.mp closed
    obtain ⟨tagOwn, names⟩ := List.forall_mem_append.mp own
    rw [declaratorParts]
    exact ⟨isClosed_qualifiedSpecifier pending (isClosed_append
      (isClosed_tagText (isClosed_recordKeyword kind) fun name isTag =>
        tagOwn name (Option.mem_toList.mpr isTag))
      (isClosed_bodyText depth (Field.isClosed_fieldTexts (depth + 1) fields names parts))), around⟩
  | .enumeration tag none, pending, inner, around, closed => by
    have own := (closed_cons.mp closed).1
    rw [declaratorParts]
    exact ⟨isClosed_qualifiedSpecifier pending (isClosed_tagText (by decide)
      fun name isTag => own name (List.mem_append_left _ (Option.mem_toList.mpr isTag))), around⟩
  | .enumeration tag (some enumerators), pending, inner, around, closed => by
    obtain ⟨own, parts⟩ := closed_cons.mp closed
    obtain ⟨tagOwn, names⟩ := List.forall_mem_append.mp own
    rw [declaratorParts]
    exact ⟨isClosed_qualifiedSpecifier pending (isClosed_append
      (isClosed_tagText (by decide) fun name isTag => tagOwn name (Option.mem_toList.mpr isTag))
      (isClosed_bodyText depth (isClosed_withCommas
        (Enumerator.isClosed_enumeratorTexts depth enumerators names parts)))), around⟩

theorem Parameter.isClosed_parameterTexts (depth : Nat) : ∀ parameters : List Parameter,
    (∀ name ∈ parameters.filterMap Parameter.name, isClosed name) →
    Closed (Parameter.listNodes parameters) → ∀ text ∈ parameterTexts depth parameters, isClosed text
  | [], _, _ => nofun
  | ⟨name, type, _⟩ :: rest, names, closed => by
    obtain ⟨first, others⟩ := closed_append.mp closed
    have isNamed : isClosed (name.getD "") := by
      cases name with
      | none => decide
      | some name => exact names name List.mem_cons_self
    have more : ∀ name ∈ rest.filterMap Parameter.name, isClosed name := fun other member =>
      names other ((List.sublist_cons_self _ rest).filterMap Parameter.name |>.mem member)
    rw [parameterTexts]
    exact List.forall_mem_cons.mpr ⟨isClosed_specifiersAnd (type.isClosed_parts depth none isNamed first),
      Parameter.isClosed_parameterTexts depth rest more others⟩

theorem Field.isClosed_fieldTexts (depth : Nat) : ∀ fields : List Field,
    (∀ name ∈ fields.filterMap Field.name, isClosed name) →
    Closed (Field.listNodes fields) → ∀ text ∈ fieldTexts depth fields, isClosed text
  | [], _, _ => nofun
  | ⟨name, type, width⟩ :: rest, names, closed => by
    have isNamed : isClosed (name.getD "") := by
      cases name with
      | none => decide
      | some name => exact names name List.mem_cons_self
    have more : ∀ name ∈ rest.filterMap Field.name, isClosed name := fun other member =>
      names other ((List.sublist_cons_self _ rest).filterMap Field.name |>.mem member)
    cases width with
    | none =>
      obtain ⟨first, others⟩ := closed_append.mp closed
      rw [fieldTexts]
      exact List.forall_mem_cons.mpr ⟨isClosed_append (isClosed_specifiersAnd
        (type.isClosed_parts depth none isNamed first)) (by decide),
        Field.isClosed_fieldTexts depth rest more others⟩
    | some width =>
      obtain ⟨front, others⟩ := closed_append.mp closed
      obtain ⟨first, second⟩ := closed_append.mp front
      rw [fieldTexts]
      exact List.forall_mem_cons.mpr ⟨isClosed_append (isClosed_append (isClosed_append
        (isClosed_specifiersAnd (type.isClosed_parts depth none isNamed first)) (by decide))
        (width.isClosed_exprText depth _ second)) (by decide),
        Field.isClosed_fieldTexts depth rest more others⟩

theorem Enumerator.isClosed_enumeratorTexts (depth : Nat) : ∀ enumerators : List Enumerator,
    (∀ name ∈ enumerators.map Enumerator.name, isClosed name) → Closed (Enumerator.listNodes enumerators) →
    ∀ text ∈ enumeratorTexts depth enumerators, isClosed text
  | [], _, _ => nofun
  | ⟨name, none⟩ :: rest, names, closed => by
    rw [List.map_cons, List.forall_mem_cons] at names
    rw [enumeratorTexts]
    exact List.forall_mem_cons.mpr ⟨names.1, Enumerator.isClosed_enumeratorTexts depth rest names.2 closed⟩
  | ⟨name, some value⟩ :: rest, names, closed => by
    rw [List.map_cons, List.forall_mem_cons] at names
    obtain ⟨first, others⟩ := closed_append.mp closed
    rw [enumeratorTexts]
    exact List.forall_mem_cons.mpr ⟨isClosed_append (isClosed_append names.1 (by decide))
      (value.isClosed_exprText depth _ first),
      Enumerator.isClosed_enumeratorTexts depth rest names.2 others⟩

end

/-! ## Statements -/

theorem Initializer.isClosed_initialValueText (depth : Nat) (value : Option Initializer)
    (closed : Closed (optionalNodes Initializer.nodes value)) : isClosed (initialValueText depth value) := by
  cases value with
  | none => exact (by decide : isClosed "")
  | some value => exact isClosed_append (by decide) (value.isClosed_initializerText depth closed)

theorem isClosed_storageText (storage : Option StorageClass) : isClosed (storageText storage) := by
  rcases storage with _ | storage
  · decide
  · cases storage <;> decide

theorem isClosed_inlineText (isInline : Bool) : isClosed (inlineText isInline) := by
  cases isInline <;> decide

theorem CType.isClosed_declaratorText (depth : Nat) (type : CType) {name : String}
    (isNamed : isClosed name) (closed : Closed type.nodes) : isClosed (declaratorText depth type name) :=
  isClosed_specifiersAnd (type.isClosed_parts depth none isNamed closed)

theorem Declaration.isClosed_declarationText (depth : Nat) (declaration : Declaration)
    (closed : Closed declaration.nodes) : isClosed (declarationText depth declaration) := by
  obtain ⟨own, parts⟩ := closed_cons.mp closed
  obtain ⟨type, value⟩ := closed_append.mp parts
  exact isClosed_append (isClosed_append (isClosed_append (isClosed_append
    (isClosed_storageText _) (isClosed_inlineText _))
    (declaration.type.isClosed_declaratorText depth (own _ (List.mem_singleton_self _)) type))
    (Initializer.isClosed_initialValueText depth _ value)) (by decide)

theorem isClosed_loopDeclarationTexts (depth : Nat) (declarations : List Declaration)
    (each : ∀ declaration ∈ declarations, Closed declaration.nodes) :
    ∀ text ∈ loopDeclarationTexts depth declarations, isClosed text := by
  cases declarations with
  | nil => exact nofun
  | cons first others =>
    have parts (declaration : Declaration) (closed : Closed declaration.nodes) :=
      closed_append.mp (closed_cons.mp closed).2
    have named (declaration : Declaration) (closed : Closed declaration.nodes) :
        isClosed declaration.name := (closed_cons.mp closed).1 _ (List.mem_singleton_self _)
    rw [List.forall_mem_cons] at each
    refine List.forall_mem_cons.mpr ⟨?_, List.forall_mem_map.mpr fun other member => ?_⟩
    · exact isClosed_append (isClosed_append (isClosed_storageText _)
        (first.type.isClosed_declaratorText depth (named _ each.1) (parts _ each.1).1))
        (Initializer.isClosed_initialValueText depth _ (parts _ each.1).2)
    · have closed := each.2 other member
      exact isClosed_append (other.type.isClosed_parts depth none (named _ closed) (parts _ closed).1).2
        (Initializer.isClosed_initialValueText depth _ (parts _ closed).2)

theorem isClosed_loopInitText (depth : Nat) (init : Option Statement)
    (closed : Closed (Statement.optionNodes init)) : isClosed (loopInitText depth init) := by
  unfold loopInitText
  split
  · next span declarations =>
    have each : ∀ declaration ∈ declarations, Closed declaration.nodes := fun declaration member node
        inside => (closed_cons.mp closed).2 node (List.mem_flatMap.mpr ⟨declaration, member, inside⟩)
    exact isClosed_append (isClosed_join (by decide)
      (isClosed_loopDeclarationTexts depth declarations each)) (by decide)
  · next span value =>
    exact isClosed_append (value.isClosed_exprText depth 0 (closed_cons.mp closed).2) (by decide)
  · decide

theorem isClosed_loopPartText (depth : Nat) (value : Option Expr)
    (closed : Closed (optionalNodes Expr.nodes value)) : isClosed (loopPartText depth value) := by
  cases value with
  | none => exact (by decide : isClosed "")
  | some value => exact isClosed_append (by decide) (value.isClosed_exprText depth 0 closed)

theorem isClosed_statementsLines {statements : List Statement} (depth : Nat)
    (each : ∀ statement ∈ statements, ∀ depth lead, isClosed lead → Closed statement.nodes →
      ∀ text ∈ statementLines depth lead statement, isClosed text)
    (closed : Closed (Statement.listNodes statements)) :
    ∀ text ∈ statementsLines depth statements, isClosed text := by
  induction statements with
  | nil => exact nofun
  | cons statement statements ih =>
    rw [List.forall_mem_cons] at each
    obtain ⟨first, rest⟩ := closed_append.mp closed
    rw [statementsLines]
    exact List.forall_mem_append.mpr ⟨each.1 depth "" (by decide) first, ih each.2 rest⟩

theorem Statement.isClosed_statementLines (statement : Statement) :
    ∀ depth lead, isClosed lead → Closed statement.nodes →
      ∀ text ∈ statementLines depth lead statement, isClosed text := by
  have headed {text tail : String} {value : Expr} (depth minimum : Nat) (front : isClosed text)
      (closed : Closed value.nodes) (back : isClosed tail) :
      isClosed (line depth (text ++ exprText depth minimum value ++ tail)) :=
    isClosed_line depth (isClosed_append (isClosed_append front
      (value.isClosed_exprText depth minimum closed)) back)
  induction statement with
  | expression span value =>
    intro depth lead leads closed
    exact List.forall_mem_singleton.mpr (isClosed_line depth (isClosed_append
      (value.isClosed_exprText depth 0 (closed_cons.mp closed).2) (by decide)))
  | block span statements ih =>
    intro depth lead leads closed
    rw [statementLines]
    refine List.forall_mem_cons.mpr ⟨isClosed_line depth (by decide), List.forall_mem_append.mpr
      ⟨isClosed_statementsLines _ ih (closed_cons.mp closed).2, ?_⟩⟩
    exact List.forall_mem_singleton.mpr (isClosed_line depth (by decide))
  | declaration span declarations =>
    intro depth lead leads closed
    refine List.forall_mem_map.mpr fun declaration member => isClosed_line depth
      (declaration.isClosed_declarationText depth fun node inside => ?_)
    exact (closed_cons.mp closed).2 node (List.mem_flatMap.mpr ⟨declaration, member, inside⟩)
  | typeDefinition span type =>
    intro depth lead leads closed
    exact List.forall_mem_singleton.mpr (isClosed_line depth (isClosed_append
      (type.isClosed_declaratorText depth (by decide) (closed_cons.mp closed).2) (by decide)))
  | ifThen span condition thenBranch ih =>
    intro depth lead leads closed
    obtain ⟨front, -⟩ := closed_append.mp (closed_cons.mp closed).2
    obtain ⟨first, second⟩ := closed_append.mp front
    rw [statementLines]
    exact List.forall_mem_cons.mpr
      ⟨headed depth 0 (isClosed_append leads (by decide)) first (by decide), ih _ _ (by decide) second⟩
  | ifElse span condition thenBranch elseBranch thenIh elseIh =>
    intro depth lead leads closed
    obtain ⟨front, last⟩ := closed_append.mp (closed_cons.mp closed).2
    obtain ⟨first, second⟩ := closed_append.mp front
    rw [statementLines]
    refine List.forall_mem_cons.mpr
      ⟨headed depth 0 (isClosed_append leads (by decide)) first (by decide),
        List.forall_mem_append.mpr ⟨thenIh _ _ (by decide) second, ?_⟩⟩
    split
    · exact elseIh _ _ (by decide) last
    · exact List.forall_mem_cons.mpr
        ⟨isClosed_line depth (by decide), elseIh _ _ (by decide) last⟩
  | whileLoop span condition body ih | switch span condition body ih =>
    intro depth lead leads closed
    obtain ⟨first, second⟩ := closed_append.mp (closed_cons.mp closed).2
    rw [statementLines]
    exact List.forall_mem_cons.mpr
      ⟨headed depth 0 (by decide) first (by decide), ih _ _ (by decide) second⟩
  | bareLoop span condition update body ih | forLoop span init condition update body _ ih =>
    intro depth lead leads closed
    obtain ⟨front, last⟩ := closed_append.mp (closed_cons.mp closed).2
    obtain ⟨front, third⟩ := closed_append.mp front
    obtain ⟨first, second⟩ := closed_append.mp front
    rw [statementLines]
    refine List.forall_mem_cons.mpr ⟨isClosed_line depth ?_, ih _ _ (by decide) last⟩
    exact isClosed_append (isClosed_append (isClosed_append (isClosed_append (isClosed_append (by decide)
      (isClosed_loopInitText depth _ first)) (isClosed_loopPartText depth condition second)) (by decide))
      (isClosed_loopPartText depth update third)) (by decide)
  | doWhile span body condition ih =>
    intro depth lead leads closed
    obtain ⟨first, second⟩ := closed_append.mp (closed_cons.mp closed).2
    rw [statementLines]
    refine List.forall_mem_cons.mpr ⟨isClosed_line depth (by decide),
      List.forall_mem_append.mpr ⟨ih _ _ (by decide) first, ?_⟩⟩
    exact List.forall_mem_singleton.mpr (headed depth 0 (by decide) second (by decide))
  | caseLabel span value statement ih =>
    intro depth lead leads closed
    obtain ⟨first, second⟩ := closed_append.mp (closed_cons.mp closed).2
    rw [statementLines]
    exact List.forall_mem_cons.mpr
      ⟨headed depth _ (by decide) first (by decide), ih _ _ (by decide) second⟩
  | defaultLabel span statement ih =>
    intro depth lead leads closed
    rw [statementLines]
    exact List.forall_mem_cons.mpr ⟨isClosed_line depth (by decide),
      ih _ _ (by decide) (closed_cons.mp closed).2⟩
  | breakStatement | continueStatement | empty =>
    intro depth lead leads closed
    exact List.forall_mem_singleton.mpr (isClosed_line depth (by decide))
  | returnStatement span value =>
    intro depth lead leads closed
    cases value with
    | none => exact List.forall_mem_singleton.mpr (isClosed_line depth (by decide))
    | some value =>
      exact List.forall_mem_singleton.mpr
        (headed depth 0 (by decide) (closed_cons.mp closed).2 (by decide))
  | gotoStatement span label =>
    intro depth lead leads closed
    exact List.forall_mem_singleton.mpr (isClosed_line depth (isClosed_append (isClosed_append (by decide)
      ((closed_cons.mp closed).1 label (List.mem_singleton_self _))) (by decide)))
  | labelled span label statement ih =>
    intro depth lead leads closed
    obtain ⟨own, inner⟩ := closed_cons.mp closed
    have isNamed := own label (List.mem_singleton_self _)
    rw [statementLines]
    split
    · exact List.forall_mem_singleton.mpr (isClosed_line depth (isClosed_append isNamed (by decide)))
    · exact List.forall_mem_cons.mpr ⟨isClosed_line depth (isClosed_append isNamed (by decide)),
        ih _ _ (by decide) inner⟩

theorem Statement.isClosed_unlines (depth : Nat) {statements : List Statement}
    (closed : Closed (Statement.listNodes statements)) :
    isClosed (unlines (statementsLines depth statements)) := by
  refine isClosed_joined (List.forall_mem_map.mpr fun text member => isClosed_append ?_ (by decide))
  exact isClosed_statementsLines depth (fun statement _ => statement.isClosed_statementLines) closed
    text member

end InlineMacro
