import InlineMacro.Proofs.Parser.Building
import InlineMacro.Proofs.Parser.DeclaratorCoverage

/-!
# Properties of the trees that are read

A property of expressions, initializers and types that every way of building them keeps holds of all
that the productions below statements read. It may depend on what the tokens spell and on the names
of types, which do not change on the way.
-/

set_option autoImplicit false

namespace InlineMacro

namespace Parser

/-- Properties of trees: of expressions, initializers, types without qualifiers as specifiers give
them, and all types. -/
structure TreeProperty where
  expr : Expr → Prop
  initializer : Initializer → Prop
  specified : CType → Prop
  type : CType → Prop

variable {given : Lexeme → Prop} {typedefs : List String}

namespace TreeProperty

variable (given : Lexeme → Prop) (holds : TreeProperty)

def argument (typesAllowed : Bool) (argument : Expr) : Prop :=
  holds.expr argument ∨
    typesAllowed ∧ ∃ span type, argument = .typeArgument span type ∧ holds.type type

def designator : Designator → Prop
  | .index index => holds.expr index
  | .member name => given (.identifier name)

def item (item : Initializer) : Prop :=
  holds.initializer item ∨ ∃ span designators value, item = .designated span designators value ∧
    designators ≠ [] ∧ (∀ entry ∈ designators, holds.designator given entry) ∧ holds.initializer value

def braced (value : Initializer) : Prop :=
  ∃ span items, value = .list span items ∧ ∀ entry ∈ items, holds.item given entry

def parameter (parameter : Parameter) : Prop :=
  (∀ name ∈ parameter.name, given (.identifier name)) ∧ holds.type parameter.type

def parameterEntry (entry : Option Parameter) : Prop :=
  ∀ parameter ∈ entry, holds.parameter given parameter

def field (field : Field) : Prop :=
  (∀ name ∈ field.name, given (.identifier name)) ∧ holds.type field.type ∧
    ∀ width ∈ field.width, holds.expr width

def fields (fields : List Field) : Prop := ∀ field ∈ fields, holds.field given field

def enumerator (enumerator : Enumerator) : Prop :=
  given (.identifier enumerator.name) ∧ ∀ value ∈ enumerator.value, holds.expr value

def base (type : CType) : Prop :=
  holds.specified type ∨ ∃ qualifiers inner, type = .qualified qualifiers inner ∧
    qualifiers.isEmpty = false ∧ holds.specified inner

def layer : Derivation → Prop
  | .pointer _ => True
  | .array size => ∀ value ∈ size, holds.expr value
  | .function parameters _ => ∀ entry ∈ parameters, holds.parameter given entry

def declarator (declared : Declarator) : Prop :=
  (∀ name ∈ declared.name, given (.identifier name)) ∧
    ∀ entry ∈ declared.derivations, holds.layer given entry

/-- The properties hold of each tree if they hold of its parts, as far as the parser builds one from
the other: a list between commas has several parts, a string some piece, and only an argument of a
call is a type. -/
structure Closed (typedefs : List String) : Prop where
  intLiteral : ∀ span spelling, given (.intLiteral spelling) → holds.expr (.intLiteral span spelling)
  floatLiteral : ∀ span spelling, given (.floatLiteral spelling) →
    holds.expr (.floatLiteral span spelling)
  charLiteral : ∀ span spelling, given (.charLiteral spelling) →
    holds.expr (.charLiteral span spelling)
  stringLiteral : ∀ span pieces, pieces ≠ [] → (∀ piece ∈ pieces, given (.stringLiteral piece)) →
    holds.expr (.stringLiteral span pieces)
  identifier : ∀ span name, given (.identifier name) → holds.expr (.identifier span name)
  comma : ∀ span first second others, (∀ part ∈ first :: second :: others, holds.expr part) →
    holds.expr (.comma span (first :: second :: others))
  binary : ∀ span operator left right, holds.expr left → holds.expr right →
    holds.expr (.binary span operator left right)
  unary : ∀ span operator operand, holds.expr operand → holds.expr (.unary span operator operand)
  conditional : ∀ span condition thenValue elseValue, holds.expr condition → holds.expr thenValue →
    holds.expr elseValue → holds.expr (.conditional span condition thenValue elseValue)
  cast : ∀ span target operand, holds.type target → holds.expr operand →
    holds.expr (.cast span target operand)
  sizeofExpr : ∀ span operand, holds.expr operand → holds.expr (.sizeofExpr span operand)
  sizeofType : ∀ span target, holds.type target → holds.expr (.sizeofType span target)
  compoundLiteral : ∀ span target value, holds.type target → holds.braced given value →
    holds.expr (.compoundLiteral span target value)
  call : ∀ span function arguments, holds.expr function →
    (∀ entry ∈ arguments, holds.argument (takesTypes function) entry) →
    holds.expr (.call span function arguments)
  member : ∀ span object name throughPointer, holds.expr object → given (.identifier name) →
    holds.expr (.member span object name throughPointer)
  value : ∀ span value, holds.expr value → holds.initializer (.expression span value)
  list : ∀ span items, (∀ entry ∈ items, holds.item given entry) → holds.initializer (.list span items)
  basic : ∀ kind, holds.specified (.basic kind)
  named : ∀ name, given (.identifier name) → name ∈ typedefs → holds.specified (.named name)
  record : ∀ kind tag fields, (∀ name ∈ tag, given (.identifier name)) →
    (∀ entry ∈ Option.getD fields [], holds.field given entry) →
    holds.specified (.record kind tag fields)
  enumeration : ∀ tag enumerators, (∀ name ∈ tag, given (.identifier name)) →
    (∀ entry ∈ Option.getD enumerators [], holds.enumerator given entry) →
    holds.specified (.enumeration tag enumerators)
  withoutBodies : ∀ target, holds.specified target → holds.specified target.withoutBodies
  ofSpecified : ∀ target, holds.specified target → holds.type target
  qualified : ∀ qualifiers inner, qualifiers.isEmpty = false → holds.specified inner →
    holds.type (.qualified qualifiers inner)
  pointer : ∀ qualifiers target, holds.type target → holds.type (.pointer qualifiers target)
  array : ∀ element size, holds.type element → (∀ value ∈ size, holds.expr value) →
    holds.type (.array element size)
  function : ∀ result parameters isVariadic, holds.type result →
    (∀ entry ∈ parameters, holds.parameter given entry) →
    holds.type (.function result parameters isVariadic)

end TreeProperty

namespace TreeProperty.Closed

variable {holds : TreeProperty} (closed : holds.Closed given typedefs)

include closed

theorem base_type {type : CType} (built : holds.base type) : holds.type type := by
  rcases built with specified | ⟨qualifiers, inner, rfl, some, specified⟩
  · exact closed.ofSpecified type specified
  · exact closed.qualified qualifiers inner some specified

theorem base_withoutBodies {type : CType} (built : holds.base type) : holds.base type.withoutBodies := by
  rcases built with specified | ⟨qualifiers, inner, rfl, some, specified⟩
  · exact .inl (closed.withoutBodies type specified)
  · exact .inr ⟨qualifiers, inner.withoutBodies, rfl, some, closed.withoutBodies inner specified⟩

theorem type_apply {type : CType} {layer : Derivation} (built : holds.type type)
    (inLayer : holds.layer given layer) : holds.type (layer.apply type) := by
  cases layer with
  | pointer qualifiers => exact closed.pointer qualifiers type built
  | array size => exact closed.array type size built inLayer
  | function parameters isVariadic => exact closed.function type parameters isVariadic built inLayer

theorem type_typeFrom {declared : Declarator} {base : CType} (built : holds.type base)
    (inDeclarator : holds.declarator given declared) : holds.type (declared.typeFrom base) := by
  obtain ⟨-, layers⟩ := inDeclarator
  unfold Declarator.typeFrom
  generalize declared.derivations = all at layers ⊢
  induction all generalizing base with
  | nil => exact built
  | cons layer others ih =>
    obtain ⟨first, rest⟩ := List.forall_mem_cons.mp layers
    exact ih (closed.type_apply built first) rest

end TreeProperty.Closed

/-! ## Expressions -/

section Expressions

variable {holds : TreeProperty} (closed : holds.Closed given typedefs)
  {expression assignment conditional binary unary cast suffixed : Parse Expr}
  {typeName : Parse CType} {initializer item : Parse Initializer} {suffixes : Expr → Parse Expr}
  (expressions : Builds given typedefs expression holds.expr)
  (values : Builds given typedefs assignment holds.expr)
  (choices : Builds given typedefs conditional holds.expr)
  (operands : Builds given typedefs binary holds.expr)
  (unaries : Builds given typedefs unary holds.expr)
  (casts : Builds given typedefs cast holds.expr)
  (types : Builds given typedefs typeName holds.type)
  (braces : ∀ state, state.typedefs = typedefs → state.isAtMark .leftBrace →
    BuildsFrom given state initializer (holds.braced given))
  (behind : ∀ operand, holds.expr operand → Builds given typedefs (suffixes operand) holds.expr)

include closed

include values in
theorem expressionForm_builds (budget : Nat) :
    Builds given typedefs (expressionForm assignment budget) holds.expr := by
  have step : Builds given typedefs (furtherPart assignment) fun taken =>
      ∀ entry ∈ taken, holds.expr entry.1 := by
    refine .bind (.acceptMark _) fun _ _ => .ite (values.bind fun value built => .pure ?_) (.pure ?_)
    · rintro entry ⟨⟩
      exact built
    · rintro entry ⟨⟩
  refine values.bind fun first built => (step.collectWithin budget).bind fun others all => ?_
  cases others with
  | nil => exact .pure built
  | cons second others =>
    exact .spanFrom fun span => .pure
      (closed.comma span first second others (List.forall_mem_cons.mpr ⟨built, all⟩))

include choices values in
theorem assignmentForm_builds : Builds given typedefs (assignmentForm conditional assignment) holds.expr := by
  refine choices.bind fun left leftBuilt => .bind (.acceptMarkAs _) fun found _ => ?_
  cases found with
  | none => exact .pure leftBuilt
  | some operator =>
    exact values.bind fun right rightBuilt => .pure (closed.binary _ _ _ _ leftBuilt rightBuilt)

include operands expressions choices in
theorem conditionalForm_builds :
    Builds given typedefs (conditionalForm binary expression conditional) holds.expr := by
  refine operands.bind fun condition built => .bind (.acceptMark _) fun _ _ => .ite ?_ (.pure built)
  exact expressions.bind fun thenValue thenBuilt => .bind (.expectMark _ _) fun _ _ =>
    choices.bind fun elseValue elseBuilt =>
      .pure (closed.conditional _ _ _ _ built thenBuilt elseBuilt)

include operands in
theorem binaryForm_builds (level budget : Nat) :
    Builds given typedefs (binaryForm level binary budget) holds.expr := by
  refine operands.bind fun first built =>
    .iterateWithin (fun left leftBuilt => .get fun state same => ?_) budget built
  split
  · exact Builds.pure (fun _ member => nomatch member) state rfl
  · next operator found =>
    unfold binaryOperatorAt at found
    split at found
    · next mark ahead =>
      refine .advance ahead rfl fun _ => same ▸ operands.bind fun right rightBuilt => .pure ?_
      rintro tree ⟨⟩
      exact closed.binary _ _ _ _ leftBuilt rightBuilt
    · cases found

include unaries casts types braces behind in
theorem castForm_builds :
    Builds given typedefs (castForm unary cast typeName initializer suffixes) holds.expr := by
  refine .get fun state same => ?_
  split
  · exact unaries state same
  · next notPlain =>
    have isType : state.isAtParenthesizedType = true := by simpa using notPlain
    have ahead : state.lexeme? = some (.mark .leftParen) :=
      beq_iff_eq.mp (Bool.and_eq_true _ _ ▸ isType).1
    refine .advance ahead rfl fun _ => same ▸ types.bind fun target targetBuilt =>
      .bind (.expectMark _ _) fun _ _ => .get fun state same => ?_
    split
    · next isBrace =>
      subst same
      exact (braces state rfl isBrace).bind fun value valueBuilt => .spanFrom fun span =>
        behind _ (closed.compoundLiteral _ _ _ targetBuilt valueBuilt)
    · exact casts.bind (fun operand built => .pure (closed.cast _ _ _ targetBuilt built)) state same

include unaries types braces behind in
theorem sizeofForm_builds (start : Location) :
    Builds given typedefs (sizeofForm start unary typeName initializer suffixes) holds.expr := by
  refine .get fun state same => ?_
  split
  · next isType =>
    have ahead : state.lexeme? = some (.mark .leftParen) :=
      beq_iff_eq.mp (Bool.and_eq_true _ _ ▸ isType).1
    refine .advance ahead rfl fun _ => same ▸ types.bind fun type typeBuilt =>
      .bind (.expectMark _ _) fun _ _ => .get fun state same => ?_
    split
    · next isBrace =>
      subst same
      exact (braces state rfl isBrace).bind fun value valueBuilt => .spanFrom fun span =>
        (behind _ (closed.compoundLiteral _ _ _ typeBuilt valueBuilt)).bind fun operand built =>
          .spanFrom fun span => .pure (closed.sizeofExpr _ _ built)
    · exact Builds.spanFrom (fun span => .pure (closed.sizeofType _ _ typeBuilt)) state same
  · exact unaries.bind (fun operand built => .pure (closed.sizeofExpr _ _ built)) state same

include unaries casts types braces behind in
theorem unaryForm_builds (operands : Builds given typedefs suffixed holds.expr) :
    Builds given typedefs (unaryForm unary cast suffixed typeName initializer suffixes) holds.expr := by
  refine .location fun start => .bind (.acceptKeyword nofun) fun _ _ =>
    .ite (sizeofForm_builds closed unaries types braces behind start) ?_
  refine .bind (.acceptMarkAs _) fun found _ => ?_
  cases found with
  | none => exact operands
  | some operator =>
    exact .ite (unaries.bind fun operand built => .pure (closed.unary _ _ _ built))
      (casts.bind fun operand built => .pure (closed.unary _ _ _ built))

omit closed in
include values types in
theorem argumentsForm_builds (typesAllowed : Bool) (budget : Nat) :
    Builds given typedefs (argumentsForm typesAllowed assignment typeName budget)
      fun arguments => ∀ entry ∈ arguments, holds.argument typesAllowed entry := by
  have step : Builds given typedefs (argumentStep typesAllowed assignment typeName) fun taken =>
      ∀ entry ∈ taken, holds.argument typesAllowed entry.1 := by
    have further (argument : Expr) (built : holds.argument typesAllowed argument) :
        Builds given typedefs (do return some (argument, ← acceptMark .comma)) fun taken =>
          ∀ entry ∈ taken, holds.argument typesAllowed entry.1 := by
      refine .bind (.acceptMark _) fun isMore _ => .pure ?_
      rintro entry ⟨⟩
      exact built
    refine .get fun state same => ?_
    split
    · next allowed =>
      have typesAllowed := (Bool.and_eq_true _ _ ▸ allowed).1
      exact types.bind (fun type built => .spanFrom fun span =>
        .bind (.pure (.inr ⟨typesAllowed, span, type, rfl, built⟩)) further) state same
    · exact values.bind (fun value built => further value (.inl built)) state same
  refine .bind (.acceptMark _) fun _ _ => .ite (.pure fun _ member => absurd member List.not_mem_nil) ?_
  exact (step.collectWithin budget).bind fun arguments all => .bind (.expectMark _ _) fun _ _ =>
    .pure all

include expressions values types in
theorem suffixesForm_builds (budget : Nat) {operand : Expr} (operandBuilt : holds.expr operand) :
    Builds given typedefs (suffixesForm expression assignment typeName budget operand) holds.expr := by
  refine .iterateWithin (fun operand operandBuilt => .get fun state same => ?_) budget operandBuilt
  have further {build : Span → Expr} (built : ∀ span, holds.expr (build span)) :
      Builds given typedefs (do return some (build (← spanFrom operand.span.start))) fun taken =>
        ∀ value ∈ taken, holds.expr value := by
    refine .spanFrom fun span => .pure ?_
    rintro value ⟨⟩
    exact built span
  subst same
  split
  · next ahead =>
    exact .advance ahead rfl fun _ => expressions.bind fun index built =>
      .bind (.expectMark _ _) fun _ _ => further fun span => closed.binary _ _ _ _ operandBuilt built
  · next ahead =>
    exact .advance ahead rfl fun _ => (argumentsForm_builds values types _ budget).bind
      fun arguments all => further fun span => closed.call _ _ _ operandBuilt all
  · next ahead =>
    exact .advance ahead rfl fun _ => (Builds.expectIdentifier _).bind fun name spelled =>
      further fun span => closed.member _ _ _ _ operandBuilt spelled
  · next ahead =>
    exact .advance ahead rfl fun _ => (Builds.expectIdentifier _).bind fun name spelled =>
      further fun span => closed.member _ _ _ _ operandBuilt spelled
  · next ahead => exact .advance ahead rfl fun _ => further fun span => closed.unary _ _ _ operandBuilt
  · next ahead => exact .advance ahead rfl fun _ => further fun span => closed.unary _ _ _ operandBuilt
  · exact Builds.pure (fun _ member => nomatch member) state rfl

include expressions in
theorem primaryForm_builds : Builds given typedefs (primaryForm expression) holds.expr := by
  refine .location fun start => .takeNext (fun token _ spelled => ?_) fun found unused state same => ?_
  · rw [Option.map_some]
    split
    · next is => exact .spanFrom fun span => .pure (closed.intLiteral _ _ (Option.some.inj is ▸ spelled))
    · next is =>
      exact .spanFrom fun span => .pure (closed.floatLiteral _ _ (Option.some.inj is ▸ spelled))
    · next is =>
      exact .spanFrom fun span => .pure (closed.charLiteral _ _ (Option.some.inj is ▸ spelled))
    · next first is =>
      exact stringPieces_builds.bind fun others all => .spanFrom fun span =>
        .pure (closed.stringLiteral span (first :: others) (List.cons_ne_nil _ _)
          (List.forall_mem_cons.mpr ⟨Option.some.inj is ▸ spelled, all⟩))
    · next is => exact .spanFrom fun span => .pure (closed.identifier _ _ (Option.some.inj is ▸ spelled))
    · exact expressions.bind fun inner built => .bind (.expectMark _ _) fun _ _ => .pure built
    · exact .fault _ _
    · exact .unexpected _ _
  · have never {kind : Lexeme} (is : found.map Token.lexeme = some kind) : ¬kind.isUsed := by
      obtain ⟨token, member, rfl⟩ := Option.map_eq_some_iff.mp is
      exact unused token member
    split
    · next is => exact absurd rfl (never is)
    · next is => exact absurd rfl (never is)
    · next is => exact absurd rfl (never is)
    · next is => exact absurd rfl (never is)
    · next is => exact absurd rfl (never is)
    · next is => exact absurd rfl (never is)
    · exact ⟨_, state, rfl, same⟩
    · exact Builds.refuses state same

end Expressions

/-! ## Initializers -/

section Initializers

variable {holds : TreeProperty} (closed : holds.Closed given typedefs)
  {assignment conditional : Parse Expr} {initializer item : Parse Initializer}

include closed

omit closed in
theorem bracedList_builds (items : Builds given typedefs item (holds.item given)) (start : Location)
    (budget : Nat) : Builds given typedefs (do
      let items ← collectWithin (initializerForm.itemStep item) budget
      expectMark .rightBrace "initializer list"
      return Initializer.list (← spanFrom start) items) (holds.braced given) := by
  have step : Builds given typedefs (initializerForm.itemStep item) fun taken =>
      ∀ entry ∈ taken, holds.item given entry.1 := by
    refine .get fun state same => Builds.ite (.pure fun _ member => nomatch member) ?_ state same
    refine items.bind fun value built => .bind (.acceptMark _) fun isMore _ => .pure ?_
    rintro entry ⟨⟩
    exact built
  exact (step.collectWithin budget).bind fun items all => .bind (.expectMark _ _) fun _ _ =>
    .spanFrom fun span => .pure ⟨span, items, rfl, all⟩

theorem initializerForm_builds (values : Builds given typedefs assignment holds.expr)
    (items : Builds given typedefs item (holds.item given)) (budget : Nat) :
    Builds given typedefs (initializerForm assignment item budget) holds.initializer := by
  refine .location fun start => .bind (.acceptMark _) fun _ _ => .ite ?_ ?_
  · refine (bracedList_builds items start budget).mono ?_
    rintro _ ⟨span, items, rfl, all⟩
    exact closed.list span items all
  · exact values.bind fun value built => .spanFrom fun span => .pure (closed.value span value built)

omit closed in
theorem initializerForm_braces (items : Builds given typedefs item (holds.item given)) (budget : Nat)
    (state : State) (same : state.typedefs = typedefs) (isBrace : state.isAtMark .leftBrace) :
    BuildsFrom given state (initializerForm assignment item budget) (holds.braced given) := by
  subst same
  refine .location ((BuildsFrom.acceptMark_taken isBrace).bind fun taken isTaken => ?_)
  rw [if_pos isTaken]
  exact bracedList_builds items state.location budget

omit closed in
theorem initializerItemForm_builds (choices : Builds given typedefs conditional holds.expr)
    (initializers : Builds given typedefs initializer holds.initializer) (budget : Nat) :
    Builds given typedefs (initializerItemForm conditional initializer budget) (holds.item given) := by
  have step : Builds given typedefs (designatorStep conditional) fun taken =>
      ∀ entry ∈ taken, holds.designator given entry.1 := by
    refine .bind (.acceptMark _) fun _ _ => .ite ?_ (.bind (.acceptMark _) fun _ _ => .ite ?_ ?_)
    · refine (Builds.expectIdentifier _).bind fun name spelled => .pure ?_
      rintro entry ⟨⟩
      exact spelled
    · refine choices.bind fun index built => .bind (.expectMark _ _) fun _ _ => .pure ?_
      rintro entry ⟨⟩
      exact built
    · exact .pure fun _ member => nomatch member
  refine .location fun start => (step.collectWithin budget).bind fun designators all => ?_
  cases designators with
  | nil => exact initializers.mono fun value built => .inl built
  | cons first others =>
    refine .bind (.expectMark _ _) fun _ _ => initializers.bind fun value built =>
      .spanFrom fun span => .pure (.inr ⟨span, first :: others, value, rfl, ?_, all, built⟩)
    exact List.cons_ne_nil _ _

end Initializers

/-! ## Declarators -/

section Declarators

variable {holds : TreeProperty} (closed : holds.Closed given typedefs)
  {specifiers : Parse Specifiers} {declarator nested : Parse Declarator}
  {assignment conditional : Parse Expr} {parameters : Parse Derivation}
  (bases : Builds given typedefs specifiers fun read => holds.base read.base)
  (declarators : Builds given typedefs declarator (holds.declarator given))
  (values : Builds given typedefs assignment holds.expr)
  (choices : Builds given typedefs conditional holds.expr)

include values in
theorem arraySize_builds : Builds given typedefs (arraySize assignment) fun size =>
    ∀ value ∈ size, holds.expr value := by
  have closes {size : Option Expr} (built : ∀ value ∈ size, holds.expr value) :
      Builds given typedefs (do expectMark .rightBracket "array declarator"; pure size) fun size =>
        ∀ value ∈ size, holds.expr value :=
    .bind (.expectMark _ _) fun _ _ => .pure built
  have unsized : ∀ value ∈ (none : Option Expr), holds.expr value := fun _ member => nomatch member
  refine .skip (.acceptKeyword nofun) (.skip qualifiers_builds (.get fun state same => ?_))
  subst same
  split
  · exact (Builds.pure unsized).bind (fun size built => closes built) state rfl
  · split
    · next star =>
      have ahead : state.lexeme? = some (.mark .star) :=
        beq_iff_eq.mp (Bool.and_eq_true _ _ ▸ star).1
      exact .advance ahead rfl fun _ => .bind (.pure unsized) fun size built => closes built
    · refine (values.map fun value built => ?_).bind (fun size built => closes built) state rfl
      rintro other ⟨⟩
      exact built

include closed bases declarators in
theorem parameterStep_builds : Builds given typedefs (parameterStep specifiers declarator) fun taken =>
    ∀ entry ∈ taken, holds.parameterEntry given entry.1 := by
  refine .bind (.acceptMark _) fun _ _ => .ite (.pure ?_) ?_
  · rintro entry ⟨⟩ parameter ⟨⟩
  · refine .location fun start => bases.bind fun read baseBuilt => declarators.bind
      fun declared built => .spanFrom fun span => .bind (.acceptMark _) fun isMore _ => .pure ?_
    rintro entry ⟨⟩ parameter ⟨⟩
    exact ⟨built.1, closed.type_typeFrom (closed.base_type baseBuilt) built⟩

include closed bases declarators in
theorem parameterList_builds (budget : Nat) :
    Builds given typedefs (parameterList specifiers declarator budget) (holds.layer given) := by
  have listed : Builds given typedefs (do
      let entries ← collectWithin (parameterStep specifiers declarator) budget
      expectMark .rightParen "parameter list"
      pure (Derivation.function (entries.filterMap id) (entries.any Option.isNone)))
      (holds.layer given) := by
    refine ((parameterStep_builds closed bases declarators).collectWithin budget).bind
      fun entries all => .bind (.expectMark _ _) fun _ _ => .pure fun parameter member => ?_
    obtain ⟨entry, among, isEntry⟩ := List.mem_filterMap.mp member
    exact all entry among parameter isEntry
  refine .bind (.acceptMark _) fun _ _ => .ite (.pure fun _ member => absurd member List.not_mem_nil)
    (.get fun state same => ?_)
  split
  · split
    · exact Builds.faulty state same
    · exact listed state same
  · exact listed state same

include values in
theorem derivationStep_builds (lists : Builds given typedefs parameters (holds.layer given)) :
    Builds given typedefs (derivationStep assignment parameters) fun taken =>
      ∀ entry ∈ taken, holds.layer given entry.1 := by
  refine .bind (.acceptMark _) fun _ _ => .ite ?_ (.bind (.acceptMark _) fun _ _ => .ite ?_
    (.pure fun _ member => nomatch member))
  · refine (arraySize_builds values).bind fun size built => .pure ?_
    rintro entry ⟨⟩
    exact built
  · refine lists.bind fun layer built => .pure ?_
    rintro entry ⟨⟩
    exact built

theorem pointerStep_builds (holds : TreeProperty) : Builds given typedefs pointerStep fun taken =>
    ∀ entry ∈ taken, holds.layer given entry.1 := by
  refine .bind (.acceptMark _) fun _ _ => .ite ?_ (.pure fun _ member => nomatch member)
  refine qualifiers_builds.bind fun read _ => .pure ?_
  rintro entry ⟨⟩
  trivial

theorem declaratorCore_builds (nests : Builds given typedefs nested (holds.declarator given)) :
    Builds given typedefs (declaratorCore nested) (holds.declarator given) := by
  refine .get fun state same => ?_
  split
  · next nestedAhead =>
    have ahead : state.lexeme? = some (.mark .leftParen) :=
      beq_iff_eq.mp (Bool.and_eq_true _ _ ▸ nestedAhead).1
    exact .advance ahead rfl fun _ => same ▸ nests.bind fun inner built =>
      .bind (.expectMark _ _) fun _ _ => .pure built
  · exact Builds.acceptIdentifier.bind (fun name spelled =>
      .pure ⟨spelled, fun _ member => absurd member List.not_mem_nil⟩) state same

include values in
theorem declaratorForm_builds (nests : Builds given typedefs nested (holds.declarator given))
    (lists : Builds given typedefs parameters (holds.layer given)) (budget : Nat) :
    Builds given typedefs (declaratorForm nested assignment parameters budget) (holds.declarator given) := by
  refine ((pointerStep_builds holds).collectWithin budget).bind fun pointers pointersBuilt =>
    (declaratorCore_builds nests).bind fun core coreBuilt =>
      ((derivationStep_builds values lists).collectWithin budget).bind fun suffixes suffixesBuilt =>
        .pure ⟨coreBuilt.1, ?_⟩
  intro layer member
  rcases List.mem_append.mp member with member | member
  · rcases List.mem_append.mp member with member | member
    · exact pointersBuilt layer member
    · exact suffixesBuilt layer (List.mem_reverse.mp member)
  · exact coreBuilt.2 layer member

include closed bases declarators in
theorem typeNameForm_builds : Builds given typedefs (typeNameForm specifiers declarator) holds.type := by
  refine .location fun start => bases.bind fun read baseBuilt => ?_
  refine .ite .faulty (declarators.bind fun declared built => ?_)
  split
  · exact .fault _ _
  · exact .pure (closed.type_typeFrom (closed.base_type baseBuilt) built)

/-! ## Types with bodies -/

include closed declarators choices in
theorem fieldForm_builds {base : CType} (baseBuilt : holds.base base) :
    Builds given typedefs (fieldForm base declarator conditional) (holds.field given) := by
  have sized {declared : Declarator} (built : holds.declarator given declared) :
      Builds given typedefs (do
        let width ← if ← acceptMark .colon then some <$> conditional else pure none
        pure (⟨declared.name, declared.typeFrom base, width⟩ : Field)) (holds.field given) := by
    have ends {width : Option Expr} (widthBuilt : ∀ value ∈ width, holds.expr value) :
        holds.field given ⟨declared.name, declared.typeFrom base, width⟩ :=
      ⟨built.1, closed.type_typeFrom (closed.base_type baseBuilt) built, widthBuilt⟩
    refine .bind (.acceptMark _) fun _ _ => .ite ?_ (.bind (.pure ?_) fun width widthBuilt =>
      .pure (ends widthBuilt))
    · refine (choices.map fun value built => ?_).bind fun width widthBuilt => .pure (ends widthBuilt)
      rintro other ⟨⟩
      exact built
    · exact fun _ member => nomatch member
  refine .get fun state same => ?_
  split
  · have unnamed : holds.declarator given {} :=
      ⟨fun _ member => (nomatch member), fun _ member => absurd member List.not_mem_nil⟩
    exact (Builds.pure unnamed).bind (fun declared built => sized built) state same
  · exact (declarators.bind fun declared built => sized built) state same

include closed bases declarators choices in
theorem fieldStep_builds (budget : Nat) :
    Builds given typedefs (fieldStep specifiers declarator conditional budget) fun taken =>
      ∀ entry ∈ taken, holds.fields given entry.1 := by
  refine .get fun state same => Builds.ite (.pure fun _ member => nomatch member) ?_ state same
  refine .bind (.acceptMark _) fun _ _ => .ite (.pure ?_) (bases.bind fun read baseBuilt =>
    .bind (.acceptMark _) fun _ _ => .ite (.pure ?_) ?_)
  · rintro entry ⟨⟩ field member
    exact absurd member List.not_mem_nil
  · rintro entry ⟨⟩ field member
    rw [List.mem_singleton.mp member]
    exact ⟨fun _ member => (nomatch member), closed.base_type baseBuilt,
      fun _ member => (nomatch member)⟩
  · have further : Builds given typedefs (furtherField read.base declarator conditional) fun taken =>
        ∀ entry ∈ taken, holds.field given entry.1 := by
      refine .bind (.acceptMark _) fun _ _ => .ite ?_ (.pure fun _ member => nomatch member)
      refine (fieldForm_builds closed declarators choices
        (closed.base_withoutBodies baseBuilt)).bind fun field built => .pure ?_
      rintro entry ⟨⟩
      exact built
    refine (fieldForm_builds closed declarators choices baseBuilt).bind fun first built =>
      (further.collectWithin budget).bind fun others all => .bind (.expectMark _ _) fun _ _ => .pure ?_
    rintro entry ⟨⟩
    exact List.forall_mem_cons.mpr ⟨built, all⟩

include closed bases declarators choices in
theorem recordForm_builds (kind : RecordKind) (budget : Nat) :
    Builds given typedefs (recordForm kind specifiers declarator conditional budget) holds.specified := by
  refine Builds.acceptIdentifier.bind fun tag spelled => .bind (.acceptMark _) fun _ _ => .ite ?_
    (.pure (closed.record kind tag none spelled fun _ member => absurd member List.not_mem_nil))
  refine ((fieldStep_builds closed bases declarators choices budget).collectWithin budget).bind
    fun fields all => .bind (.expectMark _ _) fun _ _ => .pure (closed.record kind tag _ spelled ?_)
  intro field member
  obtain ⟨group, among, inside⟩ := List.mem_flatten.mp member
  exact all group among field inside

include closed choices in
theorem enumerationForm_builds (budget : Nat) :
    Builds given typedefs (enumerationForm conditional budget) holds.specified := by
  have step : Builds given typedefs (enumeratorStep conditional) fun taken =>
      ∀ entry ∈ taken, holds.enumerator given entry.1 := by
    refine .get fun state same => Builds.ite (.pure fun _ member => nomatch member) ?_ state same
    refine (Builds.expectIdentifier _).bind fun name spelled => .bind (.acceptMark _) fun _ _ => ?_
    have ends (value : Option Expr) (built : ∀ found ∈ value, holds.expr found) :
        Builds given typedefs (do return some ((⟨name, value⟩ : Enumerator), ← acceptMark .comma))
          fun taken => ∀ entry ∈ taken, holds.enumerator given entry.1 := by
      refine .bind (.acceptMark _) fun isMore _ => .pure ?_
      rintro entry ⟨⟩
      exact ⟨spelled, built⟩
    refine .ite ((choices.map fun value built => ?_).bind ends) (.bind (.pure ?_) ends)
    · rintro other ⟨⟩
      exact built
    · exact fun _ member => nomatch member
  refine Builds.acceptIdentifier.bind fun tag spelled => .bind (.acceptMark _) fun _ _ => .ite ?_
    (.pure (closed.enumeration tag none spelled fun _ member => absurd member List.not_mem_nil))
  exact (step.collectWithin budget).bind fun enumerators all => .bind (.expectMark _ _) fun _ _ =>
    .pure (closed.enumeration tag _ spelled all)

end Declarators

/-! ## Specifiers -/

def SpecifierWords.Holds (holds : TreeProperty) (read : SpecifierWords) : Prop :=
  ∀ type ∈ read.named, holds.specified type

theorem isUsed_of_addKeyword? {read more : SpecifierWords} {keyword : Keyword}
    (added : read.addKeyword? keyword = some more) : (Lexeme.keyword keyword).isUsed := by
  cases keyword <;> first | rfl | cases added

section Specifiers

variable {holds : TreeProperty} (closed : holds.Closed given typedefs)
  {bodied : BodiedType → Parse CType}
  (bodies : ∀ kind, Builds given typedefs (bodied kind) holds.specified)

include closed

theorem SpecifierWords.base_holds {read : SpecifierWords} (built : read.Holds holds) :
    holds.base read.base := by
  have type : holds.specified (read.named.getD (.basic read.words.resolve)) := by
    cases named : read.named with
    | none => exact closed.basic _
    | some type => exact built type named
  unfold SpecifierWords.base
  dsimp only
  split
  · exact .inl type
  · next some => exact .inr ⟨_, _, rfl, by simpa using some, type⟩

include bodies in
theorem specifierStep_builds {read : SpecifierWords} (built : read.Holds holds) :
    Builds given typedefs (specifierStep bodied read) fun taken =>
      ∀ more ∈ taken, more.Holds holds := by
  refine .get fun state same => ?_
  have stops : Builds given typedefs (pure none : Parse (Option SpecifierWords)) fun taken =>
      ∀ more ∈ taken, more.Holds holds := .pure fun _ member => nomatch member
  split
  · next keyword ahead =>
    split
    · next kind isBodied =>
      have used : (Lexeme.keyword keyword).isUsed := by
        cases keyword <;> first | rfl | cases isBodied
      split
      · exact stops state same
      · refine .advance ahead used fun _ => same ▸ (bodies kind).bind fun type typeBuilt => .pure ?_
        rintro more ⟨⟩ other ⟨⟩
        exact typeBuilt
    · split
      · next more added =>
        split
        · refine .advance ahead (isUsed_of_addKeyword? added) fun _ => .pure ?_
          rintro found ⟨⟩
          unfold SpecifierWords.Holds
          rw [SpecifierWords.addKeyword?_named added]
          exact built
        · exact Builds.failure _ state same
      · exact stops state same
  · next name ahead =>
    split
    · next isType =>
      have isTypedef : name ∈ typedefs :=
        same ▸ List.contains_iff_mem.mp (Bool.and_eq_true _ _ ▸ isType).2
      refine .advance ahead rfl fun spelled => .pure ?_
      rintro more ⟨⟩ other ⟨⟩
      exact closed.named name spelled isTypedef
    · exact stops state same
  · exact stops state same

include bodies in
theorem specifiers_builds (budget : Nat) :
    Builds given typedefs (specifiers bodied budget) fun read => holds.base read.base := by
  refine .location fun start => .bind (.iterateWithin (fun read built =>
    specifierStep_builds closed bodies built) budget fun _ member => nomatch member)
    fun read built => .ite (.get fun state same => ?_) (.pure (read.base_holds closed built))
  split
  · exact Builds.unexpected _ _ state same
  · exact Builds.fault _ _ state same

end Specifiers

/-! ## The grammar -/

namespace Grammar

/-- Every production of declarators and expressions builds trees with a property within a budget. -/
structure BuildsTrees (given : Lexeme → Prop) (typedefs : List String) (holds : TreeProperty)
    (budget : Nat) : Prop where
  expression : Builds given typedefs (expression budget) holds.expr
  assignment : Builds given typedefs (assignment budget) holds.expr
  conditional : Builds given typedefs (conditional budget) holds.expr
  binary : ∀ level, Builds given typedefs (binary budget level) holds.expr
  cast : Builds given typedefs (cast budget) holds.expr
  unary : Builds given typedefs (unary budget) holds.expr
  suffixed : Builds given typedefs (suffixed budget) holds.expr
  suffixes : ∀ operand, holds.expr operand → Builds given typedefs (suffixes budget operand) holds.expr
  primary : Builds given typedefs (primary budget) holds.expr
  braces : ∀ state, state.typedefs = typedefs → state.isAtMark .leftBrace →
    BuildsFrom given state (initializer budget) (holds.braced given)
  initializer : Builds given typedefs (initializer budget) holds.initializer
  initializerItem : Builds given typedefs (initializerItem budget) (holds.item given)
  typeName : Builds given typedefs (typeName budget) holds.type
  specifiersOf : Builds given typedefs (specifiersOf budget) fun read => holds.base read.base
  bodied : ∀ kind, Builds given typedefs (bodied budget kind) holds.specified
  declarator : Builds given typedefs (declarator budget) (holds.declarator given)
  parameters : Builds given typedefs (parameters budget) (holds.layer given)

theorem buildsTrees {holds : TreeProperty} (closed : holds.Closed given typedefs) (budget : Nat) :
    BuildsTrees given typedefs holds budget := by
  induction budget with
  | zero =>
    exact {
      expression := .exhausted
      assignment := .exhausted
      conditional := .exhausted
      binary := fun _ => .exhausted
      cast := .exhausted
      unary := .exhausted
      suffixed := .exhausted
      suffixes := fun _ _ => .exhausted
      primary := .exhausted
      initializer := .exhausted
      braces := fun state same _ => Builds.exhausted state same
      initializerItem := .exhausted
      typeName := .exhausted
      specifiersOf := .exhausted
      bodied := fun _ => .exhausted
      declarator := .exhausted
      parameters := .exhausted }
  | succ budget ih =>
    exact {
      expression := expressionForm_builds closed ih.assignment budget
      assignment := assignmentForm_builds closed ih.assignment ih.conditional
      conditional := conditionalForm_builds closed ih.expression ih.conditional (ih.binary 0)
      binary := fun level => .ite ih.cast (binaryForm_builds closed (ih.binary (level + 1)) level budget)
      cast := castForm_builds closed ih.unary ih.cast ih.typeName ih.braces ih.suffixes
      unary := unaryForm_builds closed ih.unary ih.cast ih.typeName ih.braces ih.suffixes
        ih.suffixed
      suffixed := ih.primary.bind ih.suffixes
      suffixes := fun _ built =>
        suffixesForm_builds closed ih.expression ih.assignment ih.typeName budget built
      primary := primaryForm_builds closed ih.expression
      initializer := initializerForm_builds closed ih.assignment ih.initializerItem budget
      braces := initializerForm_braces ih.initializerItem budget
      initializerItem := initializerItemForm_builds ih.conditional ih.initializer budget
      typeName := typeNameForm_builds closed ih.specifiersOf ih.declarator
      specifiersOf := specifiers_builds closed ih.bodied budget
      bodied := fun kind => by
        cases kind with
        | record kind =>
          exact recordForm_builds closed ih.specifiersOf ih.declarator ih.conditional kind budget
        | enumeration => exact enumerationForm_builds closed ih.conditional budget
      declarator := declaratorForm_builds ih.assignment ih.declarator ih.parameters budget
      parameters := parameterList_builds closed ih.specifiersOf ih.declarator budget }

end Grammar

end Parser

end InlineMacro
