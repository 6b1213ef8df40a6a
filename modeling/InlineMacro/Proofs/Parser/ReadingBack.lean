import InlineMacro.Proofs.Parser.WrittenBody
import InlineMacro.Proofs.Syntax.Parts

/-!
# Trees that read back

What the parser builds is written so that it reads the same, but for a few forms that the printer writes
without the parentheses that they need, or without a name that has to stay. These are told node by node;
every tree of which all nodes read back is read again as it was.
-/

set_option autoImplicit false

namespace InlineMacro

open InlineMacro.Parser (Derives Declarator TreeProperty)
open Printer

/-! ## Nodes -/

def Designator.readsBack : Designator → Bool
  | .index value => Precedence.conditional ≤ value.level
  | .member _ => true

/-- Whether a node is written so that it reads the same, where the given names are those of types. A name
of a type is read as a type, a number takes the point and the sign behind it, a counting operator in
front takes no cast and no compound literal, and brackets hold no list. A type is still named as it was,
and a record or an enumeration has a tag or a body. -/
def Node.readsBack (types : List String) : Node → Bool
  | .expression (.identifier _ name) => !types.contains name
  | .expression (.unary _ operator operand) =>
    !(operator.followsOperand && operand.isNumber) &&
      !(Parser.takesUnaryOperand operator && (operand.isCast || operand.startsLiteral))
  | .expression (.member _ object _ _) => !object.isNumber
  | .initializer (.designated _ designators _) => designators.all Designator.readsBack
  | .type (.array _ (some size)) => !size.isComma
  | .type (.named name) => types.contains name
  | .type (.record _ none none) | .type (.enumeration none none) => false
  | _ => true

def Node.allReadBack (types : List String) (nodes : List Node) : Bool := nodes.all (Node.readsBack types)

namespace Node

variable {types : List String}

theorem allReadBack_cons {node : Node} {nodes : List Node} : allReadBack types (node :: nodes) ↔
    node.readsBack types ∧ allReadBack types nodes := by
  rw [allReadBack, List.all_cons, Bool.and_eq_true]
  rfl

theorem allReadBack_append {first second : List Node} : allReadBack types (first ++ second) ↔
    allReadBack types first ∧ allReadBack types second := by
  rw [allReadBack, List.all_append, Bool.and_eq_true]
  rfl

theorem allReadBack_flatMap {α : Type} {nodes : α → List Node} {values : List α} :
    allReadBack types (values.flatMap nodes) ↔ ∀ value ∈ values, allReadBack types (nodes value) := by
  rw [allReadBack, List.all_flatMap, List.all_eq_true]
  rfl

theorem allReadBack_optional {α : Type} {nodes : α → List Node} {part : Option α} :
    allReadBack types (optionalNodes nodes part) ↔ ∀ value ∈ part, allReadBack types (nodes value) := by
  cases part with
  | none => exact ⟨fun _ => nofun, fun _ => rfl⟩
  | some value => exact ⟨fun all _ same => Option.some.inj same ▸ all, fun all => all value rfl⟩

end Node

open Node (allReadBack allReadBack_cons allReadBack_append allReadBack_flatMap allReadBack_optional)

def Lexeme.isKept (kind : Lexeme) : Prop :=
  kind ≠ .endOfFile → kind.isSpelled ∧
    ∀ name, kind = .identifier name → Annotation.announces (.identifier name) = false

theorem Lexeme.isKept.ordinary {name : String} (kept : (Lexeme.identifier name).isKept) :
    isOrdinary name := by
  obtain ⟨spelled, plain⟩ := kept nofun
  rw [isOrdinary, spelled, plain name rfl]
  rfl

/-! ## Lists -/

variable {types : List String}

theorem Expr.listIsWritten_of_each {typesAllowed : Bool} {trees : List Expr} (depth : Nat)
    (each : ∀ tree ∈ trees,
      tree.ArgumentIsWritten types typesAllowed (exprText depth Precedence.assignment tree)) :
    trees = [] ∨ Expr.ListIsWritten types typesAllowed trees (exprTexts depth trees) := by
  induction trees with
  | nil => exact .inl rfl
  | cons tree trees ih =>
    obtain ⟨first, others⟩ := List.forall_mem_cons.mp each
    rw [exprTexts]
    rcases ih others with rfl | more
    · exact .inr (.single first)
    · exact .inr (.cons first more)

theorem Initializer.listIsWritten_of_each {items : List Initializer} (depth : Nat)
    (each : ∀ item ∈ items, item.EntryIsWritten types (initializerText depth item)) :
    items = [] ∨ initializerTexts depth items ≠ [] ∧
      Initializer.ListIsWritten types items (initializerTexts depth items) := by
  induction items with
  | nil => exact .inl rfl
  | cons item items ih =>
    obtain ⟨first, others⟩ := List.forall_mem_cons.mp each
    rw [initializerTexts]
    rcases ih others with rfl | ⟨some, more⟩
    · exact .inr ⟨List.cons_ne_nil _ _, .single first⟩
    · exact .inr ⟨List.cons_ne_nil _ _, .cons first more some⟩

theorem Initializer.isBraced_of_each {items : List Initializer} (span : Span) (depth : Nat)
    (each : ∀ item ∈ items, item.EntryIsWritten types (initializerText depth item)) :
    (Initializer.list span items).IsBraced types (initializerText depth (.list span items)) := by
  rcases Initializer.listIsWritten_of_each depth each with rfl | ⟨-, inner⟩
  · exact .nil span
  · cases items with
    | nil => exact .nil span
    | cons => exact .list span inner

theorem Designator.listIsWritten_of_each {designators : List Designator} (depth : Nat)
    (ordinary : ∀ name, .member name ∈ designators → isOrdinary name)
    (each : ∀ value, .index value ∈ designators →
      value.IsWritten types Precedence.conditional (exprText depth 0 value)) :
    Designator.ListIsWritten types designators (designatorsText depth designators) := by
  induction designators with
  | nil => exact .nil
  | cons designator designators ih =>
    have others := ih (fun name member => ordinary name (List.mem_cons_of_mem _ member))
      fun value member => each value (List.mem_cons_of_mem _ member)
    cases designator with
    | index value => exact .index (each value List.mem_cons_self) others
    | member name => exact .member (ordinary name List.mem_cons_self) others

theorem Parameter.listIsWritten_of_each {parameters : List Parameter} (isVariadic : Bool) (depth : Nat)
    (each : ∀ parameter ∈ parameters, parameter.type.PartsWritten types parameter.name
      (declaratorParts depth none (parameter.name.getD "") parameter.type)) :
    parameters = [] ∧ isVariadic = false ∧
        parameterTexts depth parameters ++ (if isVariadic then ["..."] else []) = [] ∨
      Parameter.ListIsWritten types parameters isVariadic
        (parameterTexts depth parameters ++ (if isVariadic then ["..."] else [])) := by
  induction parameters with
  | nil => exact Parameter.ListIsWritten.nil isVariadic
  | cons parameter parameters ih =>
    obtain ⟨name, type, span⟩ := parameter
    obtain ⟨first, others⟩ := List.forall_mem_cons.mp each
    rw [parameterTexts, List.cons_append]
    exact .inr (.cons span first (ih others))

theorem Field.listIsWritten_of_each {fields : List Field} (depth : Nat)
    (each : ∀ field ∈ fields, field.type.PartsWritten types field.name
      (declaratorParts depth none (field.name.getD "") field.type))
    (wide : ∀ field ∈ fields, ∀ width ∈ field.width,
      width.IsWritten types Precedence.conditional (exprText depth Precedence.conditional width)) :
    Field.ListIsWritten types fields (fieldTexts depth fields) := by
  induction fields with
  | nil => exact .nil
  | cons field fields ih =>
    obtain ⟨name, type, width⟩ := field
    obtain ⟨first, others⟩ := List.forall_mem_cons.mp each
    obtain ⟨firstWide, othersWide⟩ := List.forall_mem_cons.mp wide
    cases width with
    | none =>
      rw [fieldTexts]
      exact .cons first (ih others othersWide)
    | some width =>
      rw [fieldTexts]
      exact .consWide first (firstWide width rfl) (ih others othersWide)

theorem Enumerator.listIsWritten_of_each {constants : List Enumerator} (depth : Nat)
    (ordinary : ∀ constant ∈ constants, isOrdinary constant.name)
    (each : ∀ constant ∈ constants, ∀ value ∈ constant.value,
      value.IsWritten types Precedence.conditional (exprText depth Precedence.conditional value)) :
    (constants = [] ∨ enumeratorTexts depth constants ≠ []) ∧
      Enumerator.ListIsWritten types constants (enumeratorTexts depth constants) := by
  induction constants with
  | nil => exact ⟨.inl rfl, .nil⟩
  | cons constant constants ih =>
    obtain ⟨name, value⟩ := constant
    obtain ⟨named, othersNamed⟩ := List.forall_mem_cons.mp ordinary
    obtain ⟨valued, othersValued⟩ := List.forall_mem_cons.mp each
    obtain ⟨some, others⟩ := ih othersNamed othersValued
    have step {text : String} (first : Enumerator.IsWritten types ⟨name, value⟩ text) :
        Enumerator.ListIsWritten types (⟨name, value⟩ :: constants)
          (text :: enumeratorTexts depth constants) := by
      rcases some with rfl | some
      · exact .single first
      · exact .cons first others some
    cases value with
    | none =>
      rw [enumeratorTexts]
      exact ⟨.inr (List.cons_ne_nil _ _), step (.plain named)⟩
    | some value =>
      rw [enumeratorTexts]
      exact ⟨.inr (List.cons_ne_nil _ _), step (.valued named (valued value rfl))⟩

/-! ## Types as specifiers give them -/

/-- A type that specifiers give is written in one piece, whatever qualifiers stand in front of it and
whatever is declared with it. -/
def CType.IsWorded (type : CType) : Prop :=
  type.core = type ∧ ∀ types, allReadBack types type.nodes → ∀ depth, ∃ text lexemes,
    type.WordsWritten types text lexemes ∧
    ∀ pending inner, declaratorParts depth pending inner type = (qualifiedSpecifier pending text, inner)

theorem CType.IsWorded.named {name : String} (ordinary : isOrdinary name) : (CType.named name).IsWorded := by
  refine ⟨rfl, fun types readsBack depth => ?_⟩
  have isType := List.contains_iff_mem.mp (allReadBack_cons.mp readsBack).1
  exact ⟨_, _, .named ordinary isType, fun _ _ => by rw [declaratorParts]⟩

theorem CType.IsWorded.basic (kind : BasicType) : (CType.basic kind).IsWorded :=
  ⟨rfl, fun _ _ _ => ⟨_, _, kind.wordsWritten, fun _ _ => by rw [declaratorParts]⟩⟩

theorem CType.IsWorded.tag {kind : RecordKind} {tag : Option String}
    (ordinary : ∀ name ∈ tag, isOrdinary name) : (CType.record kind tag none).IsWorded := by
  refine ⟨rfl, fun types readsBack depth => ?_⟩
  cases tag with
  | none => cases readsBack
  | some tag =>
    obtain ⟨word, spelled, isBodied⟩ := kind.exists_word
    refine ⟨_, _, .tagged word isBodied (ordinary tag rfl) (.recordTag kind tag), fun pending inner => ?_⟩
    rw [declaratorParts, spelled, tagText]

theorem CType.IsWorded.enumerationTag {tag : Option String} (ordinary : ∀ name ∈ tag, isOrdinary name) :
    (CType.enumeration tag none).IsWorded := by
  refine ⟨rfl, fun types readsBack depth => ?_⟩
  cases tag with
  | none => cases readsBack
  | some tag =>
    refine ⟨_, _, .tagged .kwEnum rfl (ordinary tag rfl) (.enumerationTag tag), fun pending inner => ?_⟩
    rw [declaratorParts, tagText]
    rfl

theorem CType.withoutBodies_withoutBodies : ∀ type : CType,
    type.withoutBodies.withoutBodies = type.withoutBodies
  | .record _ tag _ | .enumeration tag _ => by cases tag <;> rfl
  | .pointer _ target => congrArg (CType.pointer _) target.withoutBodies_withoutBodies
  | .array element _ => congrArg (CType.array · _) element.withoutBodies_withoutBodies
  | .function result _ _ => congrArg (CType.function · _ _) result.withoutBodies_withoutBodies
  | .qualified _ inner => congrArg (CType.qualified _) inner.withoutBodies_withoutBodies
  | .basic _ | .named _ => rfl

theorem CType.IsWorded.parts {type : CType} (worded : type.IsWorded)
    (readsBack : allReadBack types type.nodes) (depth : Nat) {declared : Declarator} {inner : String}
    {lexemes : List Lexeme} {direct : Bool} (written : declared.WrittenAs types direct inner lexemes) :
    (declared.typeFrom type).PartsWritten types declared.name (declaratorParts depth none inner type) := by
  obtain ⟨isCore, worded⟩ := worded
  obtain ⟨text, spec, words, same⟩ := worded types readsBack depth
  rw [same]
  exact .intro isCore words.specifiers written.any

theorem CType.IsWorded.qualifiedParts {type : CType} {qualifiers : Qualifiers}
    (worded : type.IsWorded) (some : qualifiers.isEmpty = false)
    (readsBack : allReadBack types type.nodes) (depth : Nat) {declared : Declarator} {inner : String}
    {lexemes : List Lexeme} {direct : Bool} (written : declared.WrittenAs types direct inner lexemes) :
    (declared.typeFrom (.qualified qualifiers type)).PartsWritten types declared.name
      (declaratorParts depth none inner (.qualified qualifiers type)) := by
  obtain ⟨text, spec, words, same⟩ := worded.2 types readsBack depth
  rw [declaratorParts, same]
  exact .intro rfl (words.qualified some) written.any

theorem CType.IsWorded.record {kind : RecordKind} {tag : Option String} {fields : List Field}
    (ordinary : ∀ name ∈ tag, isOrdinary name)
    (each : ∀ types, allReadBack types (Field.listNodes fields) → ∀ depth,
      Field.ListIsWritten types fields (fieldTexts depth fields)) :
    (CType.record kind tag (some fields)).IsWorded := by
  refine ⟨rfl, fun types readsBack depth => ?_⟩
  obtain ⟨lexemes, lines, derives⟩ := each types (allReadBack_cons.mp readsBack).2 (depth + 1)
  obtain ⟨word, spelled, isBodied⟩ := kind.exists_word
  obtain ⟨spec, words⟩ := CType.WordsWritten.ofBody depth isBodied ordinary lines (.recordBody kind tag derives)
  rw [spelled] at words
  exact ⟨_, _, words, fun pending inner => by rw [declaratorParts]⟩

theorem CType.IsWorded.enumeration {tag : Option String} {constants : List Enumerator}
    (ordinary : ∀ name ∈ tag, isOrdinary name)
    (each : ∀ types, allReadBack types (Enumerator.listNodes constants) → ∀ depth,
      Enumerator.ListIsWritten types constants (enumeratorTexts depth constants)) :
    (CType.enumeration tag (some constants)).IsWorded := by
  refine ⟨rfl, fun types readsBack depth => ?_⟩
  obtain ⟨lexemes, lines, derives⟩ := each types (allReadBack_cons.mp readsBack).2 depth
  have isBodied : Parser.bodiedTypeOfKeyword? .kwEnum = some .enumeration := rfl
  obtain ⟨spec, words⟩ := CType.WordsWritten.ofBody depth isBodied ordinary lines (.enumerationBody tag derives)
  exact ⟨_, _, words, fun pending inner => by rw [declaratorParts]; rfl⟩

/-! ## All trees -/

namespace Parser

/-- The property that a tree is read again as it was, if its nodes read back: an expression in a place of
any precedence, a type around what has been written of its declarator. The names of types need not be
those with which the tree was read. -/
def writtenTree : TreeProperty where
  expr tree := ∀ types, allReadBack types tree.nodes →
    ∀ depth minimum, tree.IsWritten types minimum (exprText depth minimum tree)
  initializer value := ∀ types, allReadBack types value.nodes →
    ∀ depth, value.IsWritten types (initializerText depth value)
  specified type := type.IsWorded ∧ type.withoutBodies.IsWorded
  type type := ∀ types, allReadBack types type.nodes → ∀ depth {declared : Declarator} {inner : String}
    {lexemes : List Lexeme}, declared.WrittenAs types (isSuffixType type) inner lexemes →
    (declared.typeFrom type).PartsWritten types declared.name (declaratorParts depth none inner type)

theorem writtenTree_parts {type : CType} {name : Option String} (written : writtenTree.type type)
    (readsBack : allReadBack types type.nodes) (ordinary : ∀ word ∈ name, isOrdinary word) (depth : Nat) :
    type.PartsWritten types name (declaratorParts depth none (name.getD "") type) := by
  have all : name.all isOrdinary := by
    cases name with
    | none => rfl
    | some word => exact ordinary word rfl
  obtain ⟨named, writtenName⟩ : ∃ lexemes,
      Declarator.WrittenAs types true { name := name } (name.getD "") lexemes := exists_writtenName all
  exact written types readsBack depth (writtenName.ofDirect _)

theorem writtenTree_unnamed {type : CType} (written : writtenTree.type type)
    (readsBack : allReadBack types type.nodes) (depth : Nat) :
    type.PartsWritten types none (declaratorParts depth none "" type) :=
  writtenTree_parts written readsBack (by rintro _ ⟨⟩) depth

theorem writtenTree_item {item : Initializer} (written : writtenTree.item Lexeme.isKept item)
    (readsBack : allReadBack types item.nodes) (depth : Nat) :
    item.EntryIsWritten types (initializerText depth item) := by
  rcases written with written | ⟨span, designators, value, rfl, some, each, written⟩
  · exact (written types readsBack depth).entry
  · obtain ⟨own, parts⟩ := allReadBack_cons.mp readsBack
    rw [Designator.listNodes_eq] at parts
    obtain ⟨indices, values⟩ := allReadBack_append.mp parts
    rw [initializerText]
    refine .designated span (Designator.listIsWritten_of_each depth ?_ ?_) some (written types values depth)
    · exact fun name member => (each _ member).ordinary
    · intro index member
      have level := List.all_eq_true.mp own _ member
      rw [exprText_zero (of_decide_eq_true level)]
      exact each _ member types (allReadBack_flatMap.mp indices _ member) depth _

theorem writtenTree_braced {value : Initializer} (written : writtenTree.braced Lexeme.isKept value)
    (readsBack : allReadBack types value.nodes) (depth : Nat) :
    value.IsBraced types (initializerText depth value) := by
  obtain ⟨span, items, rfl, each⟩ := written
  have parts := (allReadBack_cons.mp readsBack).2
  rw [Initializer.listNodes_eq, allReadBack_flatMap] at parts
  exact Initializer.isBraced_of_each span depth fun item member =>
    writtenTree_item (each item member) (parts item member) depth

theorem writtenTree_argument {typesAllowed : Bool} {argument : Expr}
    (written : writtenTree.argument typesAllowed argument)
    (readsBack : allReadBack types argument.nodes) (depth : Nat) :
    argument.ArgumentIsWritten types typesAllowed (exprText depth Precedence.assignment argument) := by
  rcases written with written | ⟨allowed, span, type, rfl, written⟩
  · exact (written types readsBack depth _).argument typesAllowed
  · rw [exprText, show typesAllowed = true from allowed]
    exact (writtenTree_unnamed written (allReadBack_cons.mp readsBack).2 depth).argument span

theorem writtenTree_closed (typedefs : List String) : writtenTree.Closed Lexeme.isKept typedefs := by
  constructor
  case intLiteral =>
    intro span spelling spelled types _ depth minimum
    exact .ofLexeme (spelled (by simp)).1 rfl (.intLiteral span spelling) (by simp)
      (by simp [Expr.isNumber]) minimum
  case floatLiteral =>
    intro span spelling spelled types _ depth minimum
    exact .ofLexeme (spelled (by simp)).1 rfl (.floatLiteral span spelling) (by simp)
      (by simp [Expr.isNumber]) minimum
  case charLiteral =>
    intro span spelling spelled types _ depth minimum
    exact .ofLexeme (spelled (by simp)).1 rfl (.charLiteral span spelling) (by simp) (fun _ => rfl) minimum
  case stringLiteral =>
    intro span pieces some each types _ depth minimum
    exact .stringLiteral span some (fun piece member => (each piece member (by simp)).1) minimum
  case identifier =>
    intro span name spelled types readsBack depth minimum
    have absent := (allReadBack_cons.mp readsBack).1
    exact .identifier span spelled.ordinary (by simpa [Node.readsBack] using absent) minimum
  case comma =>
    intro span first second others each types readsBack depth minimum
    have parts := (allReadBack_cons.mp readsBack).2
    rw [Expr.listNodes_eq, allReadBack_flatMap] at parts
    rw [exprText]
    refine (Expr.IsWritten.comma span ?_ (Nat.le_add_left 2 _)).parenthesized minimum
    refine (Expr.listIsWritten_of_each depth fun tree member => ?_).resolve_left (List.cons_ne_nil _ _)
    exact (each tree member types (parts tree member) depth _).argument false
  case binary =>
    intro span operator left right first second types readsBack depth minimum
    obtain ⟨readsFirst, readsSecond⟩ := allReadBack_append.mp (allReadBack_cons.mp readsBack).2
    have first (minimum : Nat) := first types readsFirst depth minimum
    have second (minimum : Nat) := second types readsSecond depth minimum
    rw [exprText]
    split
    · next isIndex =>
      rw [isIndex]
      exact (Expr.IsWritten.index span (first _) (second _)).parenthesized minimum
    · next notIndex =>
      split
      · next assigns => exact (Expr.IsWritten.assign span assigns (first _) (second _)).parenthesized minimum
      · next computes =>
        exact (Expr.IsWritten.operate span notIndex (by simpa using computes) (first _)
          (second _)).parenthesized minimum
  case unary =>
    intro span operator operand inner types readsBack depth minimum
    obtain ⟨own, parts⟩ := allReadBack_cons.mp readsBack
    simp only [Node.readsBack, Bool.and_eq_true, Bool.not_eq_true'] at own
    obtain ⟨notNumber, unhindered⟩ := own
    have inner (minimum : Nat) := inner types parts depth minimum
    rw [exprText]
    split
    · next follows =>
      rw [follows, Bool.true_and] at notNumber
      exact (Expr.IsWritten.behind span follows (inner _) notNumber).parenthesized minimum
    · next inFront =>
      exact (Expr.IsWritten.before span (by simpa using inFront) (inner _) unhindered).parenthesized minimum
  case conditional =>
    intro span condition thenValue elseValue chooses first second types readsBack depth minimum
    obtain ⟨readsBack, readsElse⟩ := allReadBack_append.mp (allReadBack_cons.mp readsBack).2
    obtain ⟨readsCondition, readsThen⟩ := allReadBack_append.mp readsBack
    rw [exprText]
    exact (Expr.IsWritten.conditional span (chooses types readsCondition depth _) (first types readsThen depth _)
      (second types readsElse depth _)).parenthesized minimum
  case cast =>
    intro span target operand typed inner types readsBack depth minimum
    obtain ⟨readsType, readsOperand⟩ := allReadBack_append.mp (allReadBack_cons.mp readsBack).2
    have named := writtenTree_unnamed typed readsType depth
    rw [exprText]
    exact (Expr.IsWritten.cast span named.typeName (inner types readsOperand depth _)).parenthesized minimum
  case sizeofExpr =>
    intro span operand inner types readsBack depth minimum
    rw [exprText]
    exact (Expr.IsWritten.sizeofExpr span
      (inner types (allReadBack_cons.mp readsBack).2 depth 0)).parenthesized minimum
  case sizeofType =>
    intro span target typed types readsBack depth minimum
    have named := writtenTree_unnamed typed (allReadBack_cons.mp readsBack).2 depth
    rw [exprText]
    exact (Expr.IsWritten.sizeofType span named.typeName).parenthesized minimum
  case compoundLiteral =>
    intro span target value typed list types readsBack depth minimum
    obtain ⟨readsType, readsValue⟩ := allReadBack_append.mp (allReadBack_cons.mp readsBack).2
    have named := writtenTree_unnamed typed readsType depth
    rw [exprText]
    exact (Expr.IsWritten.compoundLiteral span named.typeName
      (writtenTree_braced list readsValue depth)).parenthesized minimum
  case call =>
    intro span function arguments callee each types readsBack depth minimum
    obtain ⟨readsFunction, parts⟩ := allReadBack_append.mp (allReadBack_cons.mp readsBack).2
    rw [Expr.listNodes_eq, allReadBack_flatMap] at parts
    rw [exprText]
    refine (Expr.IsWritten.call span (callee types readsFunction depth _) ?_).parenthesized minimum
    refine (Expr.listIsWritten_of_each depth fun tree member =>
      writtenTree_argument (each tree member) (parts tree member) depth).imp_left fun none => ?_
    rw [none]
    exact ⟨rfl, rfl⟩
  case member =>
    intro span object name throughPointer inner spelled types readsBack depth minimum
    obtain ⟨own, parts⟩ := allReadBack_cons.mp readsBack
    rw [exprText]
    exact (Expr.IsWritten.member span throughPointer (inner types parts depth _)
      (by simpa [Node.readsBack] using own) spelled.ordinary).parenthesized minimum
  case value =>
    intro span value inner types readsBack depth
    rw [initializerText]
    exact .expression span (inner types (allReadBack_cons.mp readsBack).2 depth _)
  case list =>
    intro span items each types readsBack depth
    exact (writtenTree_braced ⟨span, items, rfl, each⟩ readsBack depth).initializer
  case basic => exact fun kind => ⟨.basic kind, .basic kind⟩
  case named =>
    exact fun name spelled _ => ⟨.named spelled.ordinary, .named spelled.ordinary⟩
  case record =>
    intro kind tag fields tagged each
    have ordinary : ∀ name ∈ tag, isOrdinary name := fun name member => (tagged name member).ordinary
    have whole : (CType.record kind tag fields).IsWorded := by
      cases fields with
      | none => exact .tag ordinary
      | some fields =>
        refine .record ordinary fun types readsBack depth => ?_
        rw [Field.listNodes_eq, allReadBack_flatMap] at readsBack
        refine Field.listIsWritten_of_each depth (fun field member => ?_) fun field member width isWidth => ?_
        · obtain ⟨named, typed, -⟩ := each field member
          exact writtenTree_parts typed (allReadBack_append.mp (readsBack field member)).1
            (fun name found => (named name found).ordinary) depth
        · have reads := (allReadBack_append.mp (readsBack field member)).2
          exact (each field member).2.2 width isWidth types (allReadBack_optional.mp reads width isWidth) depth _
    refine ⟨whole, ?_⟩
    cases tag with
    | none => exact whole
    | some tag => exact .tag ordinary
  case enumeration =>
    intro tag constants tagged each
    have ordinary : ∀ name ∈ tag, isOrdinary name := fun name member => (tagged name member).ordinary
    have whole : (CType.enumeration tag constants).IsWorded := by
      cases constants with
      | none => exact .enumerationTag ordinary
      | some constants =>
        refine .enumeration ordinary fun types readsBack depth => ?_
        rw [Enumerator.listNodes_eq, allReadBack_flatMap] at readsBack
        refine (Enumerator.listIsWritten_of_each depth (fun constant member => (each constant member).1.ordinary)
          fun constant member value isValue => ?_).2
        exact (each constant member).2 value isValue types
          (allReadBack_optional.mp (readsBack constant member) value isValue) depth _
    refine ⟨whole, ?_⟩
    cases tag with
    | none => exact whole
    | some tag => exact .enumerationTag ordinary
  case withoutBodies =>
    intro target worded
    refine ⟨worded.2, ?_⟩
    rw [target.withoutBodies_withoutBodies]
    exact worded.2
  case ofSpecified =>
    intro target worded types readsBack depth declared inner lexemes written
    exact worded.1.parts readsBack depth written
  case qualified =>
    intro qualifiers inner some worded types readsBack depth declared text lexemes written
    exact worded.1.qualifiedParts some (allReadBack_cons.mp readsBack).2 depth written
  case pointer =>
    intro qualifiers target typed types readsBack depth declared inner lexemes written
    obtain ⟨more, pointed⟩ := written.pointerTo qualifiers target
    rw [declaratorParts]
    exact typed types (allReadBack_cons.mp readsBack).2 depth pointed
  case array =>
    intro element size typed sized types readsBack depth declared inner lexemes written
    cases size with
    | none =>
      obtain ⟨more, layered⟩ := written.arrayOf
      rw [declaratorParts]
      exact typed types (allReadBack_cons.mp readsBack).2 depth (layered.ofDirect _)
    | some size =>
      obtain ⟨own, parts⟩ := allReadBack_cons.mp readsBack
      obtain ⟨readsElement, readsSize⟩ := allReadBack_append.mp parts
      obtain ⟨more, layered⟩ := written.arrayOfSize (sized size rfl types readsSize depth Precedence.assignment)
      rw [declaratorParts, exprText_zero (Expr.assignment_le_level (by simpa [Node.readsBack] using own))]
      exact typed types readsElement depth (layered.ofDirect _)
  case function =>
    intro result parameters isVariadic typed each types readsBack depth declared inner lexemes written
    obtain ⟨readsResult, parts⟩ := allReadBack_append.mp (allReadBack_cons.mp readsBack).2
    rw [Parameter.listNodes_eq, allReadBack_flatMap] at parts
    obtain ⟨more, layered⟩ := written.functionOf
      (Parameter.listIsWritten_of_each isVariadic depth fun parameter member =>
        writtenTree_parts (each parameter member).2 (parts parameter member)
          (fun name found => ((each parameter member).1 name found).ordinary) depth)
    rw [declaratorParts]
    exact typed types readsResult depth (layered.ofDirect _)

end Parser

end InlineMacro
