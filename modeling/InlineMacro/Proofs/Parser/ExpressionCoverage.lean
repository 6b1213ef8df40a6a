import InlineMacro.Proofs.Parser.DeclaratorCoverage

/-!
# Expressions and initializers cover their tokens

The productions from a list of expressions between commas down to names and literals, and those of
initializers. The names that designators spell are those of members, and are not kept with the
others.
-/

set_option autoImplicit false

namespace InlineMacro

namespace Parser

variable {word : String → Prop}

section Operators

variable {assignment conditional binary expression operand unary cast suffixed : Parse Expr}
  {typeName : Parse CType} {initializer : Parse Initializer} {suffixes : Expr → Parse Expr}

theorem expressionForm_reads (assigns : Reads word assignment 0 Expr.content) (budget : Nat) :
    Reads word (expressionForm assignment budget) 0 Expr.content := by
  have further : Reads word (furtherPart assignment) 0 (optionalContent fun entry => Expr.content entry.1) :=
    .skip (.acceptMark _) fun _ => .ite (assigns.bind fun value => .pure rfl) (.pure rfl)
  refine assigns.bind fun first => (Reads.collect further budget).step fun others => ?_
  cases others with
  | nil => exact .pure (add_zero _).symm
  | cons second others =>
    refine .skip (.spanFrom _) fun span => .pure ?_
    rw [Expr.content_comma, listContent_cons]

theorem assignmentForm_reads (chooses : Reads word conditional 0 Expr.content)
    (assigns : Reads word assignment 0 Expr.content) :
    Reads word (assignmentForm conditional assignment) 0 Expr.content := by
  refine chooses.bind fun left => .skip (.acceptMarkAs _) fun found => ?_
  cases found with
  | none => exact .pure rfl
  | some operator => exact assigns.step fun right => .pure (Expr.content_binary _ _ _ _)

theorem conditionalForm_reads (computes : Reads word binary 0 Expr.content)
    (evaluates : Reads word expression 0 Expr.content) (chooses : Reads word conditional 0 Expr.content) :
    Reads word (conditionalForm binary expression conditional) 0 Expr.content := by
  refine computes.bind fun condition => .skip (.acceptMark _) fun _ => .ite ?_ (.pure rfl)
  exact evaluates.step fun thenValue => .skip (.expectMark _ _) fun _ =>
    chooses.step fun elseValue => .pure (Expr.content_conditional _ _ _ _)

theorem binaryForm_reads (level : Nat) (operates : Reads word operand 0 Expr.content)
    (budget : Nat) : Reads word (binaryForm level operand budget) 0 Expr.content := by
  refine operates.bind fun first => Reads.iterateWithin (fun left => ?_) budget first
  refine .get fun state => ?_
  split
  · exact Reads.pure rfl state
  · next operator found =>
    unfold binaryOperatorAt at found
    split at found
    · next mark ahead =>
      refine .advance ahead trivial (operates.step fun right => .pure ?_)
      exact Expr.content_binary _ _ _ _
    · cases found

theorem literal_reads (span : Span) (type : CType) (value : Initializer)
    (continues : ∀ value, Reads word (suffixes value) value.content Expr.content) :
    Reads word (suffixes (.compoundLiteral span type value)) (type.content + value.content) Expr.content := by
  rw [← Expr.content_compoundLiteral span]
  exact continues _

theorem lexeme?_of_isAtParenthesizedType {state : State} (isType : state.isAtParenthesizedType) :
    state.lexeme? = some (.mark .leftParen) :=
  beq_iff_eq.mp (Bool.and_eq_true _ _ ▸ isType).1

theorem castForm_reads (applies : Reads word unary 0 Expr.content)
    (casts : Reads word cast 0 Expr.content) (names : Reads word typeName 0 CType.content)
    (initializes : Reads word initializer 0 Initializer.content)
    (continues : ∀ value, Reads word (suffixes value) value.content Expr.content) :
    Reads word (castForm unary cast typeName initializer suffixes) 0 Expr.content := by
  refine .get fun state => ?_
  split
  · exact applies state
  · next notPlain =>
    have isType : state.isAtParenthesizedType = true := by simpa using notPlain
    refine .advance (lexeme?_of_isAtParenthesizedType isType) trivial ?_
    refine names.bind fun target => .skip (.expectMark _ _) fun _ => .get fun state => ?_
    refine Reads.ite ?_ (casts.step fun operand => .pure (Expr.content_cast _ _ _)) state
    exact initializes.step fun value => .skip (.spanFrom _) fun span =>
      literal_reads span target value continues

theorem sizeofForm_reads (start : Location) (applies : Reads word unary 0 Expr.content)
    (names : Reads word typeName 0 CType.content) (initializes : Reads word initializer 0 Initializer.content)
    (continues : ∀ value, Reads word (suffixes value) value.content Expr.content) :
    Reads word (sizeofForm start unary typeName initializer suffixes) 0 Expr.content := by
  refine .get fun state => ?_
  split
  · next isType =>
    refine .advance (lexeme?_of_isAtParenthesizedType isType) trivial ?_
    refine names.bind fun type => .skip (.expectMark _ _) fun _ => .get fun state => ?_
    refine Reads.ite ?_ (.skip (.spanFrom _) fun span => .pure (Expr.content_sizeofType _ _)) state
    exact initializes.step fun value => .skip (.spanFrom _) fun span =>
      (literal_reads span type value continues).bind fun operand => .skip (.spanFrom _) fun span =>
        .pure (Expr.content_sizeofExpr _ _)
  · exact (applies.bind fun operand => .pure (Expr.content_sizeofExpr _ _)) state

theorem unaryForm_reads (applies : Reads word unary 0 Expr.content)
    (casts : Reads word cast 0 Expr.content) (suffixes_reads : Reads word suffixed 0 Expr.content)
    (names : Reads word typeName 0 CType.content) (initializes : Reads word initializer 0 Initializer.content)
    (continues : ∀ value, Reads word (suffixes value) value.content Expr.content) :
    Reads word (unaryForm unary cast suffixed typeName initializer suffixes) 0 Expr.content := by
  refine .skip .location fun start => .skip (.acceptKeyword rfl) fun _ =>
    .ite (sizeofForm_reads start applies names initializes continues) ?_
  refine .skip (.acceptMarkAs _) fun found => ?_
  cases found with
  | none => exact suffixes_reads
  | some operator =>
    have built : ∀ operand : Expr, Reads word
        (pure (.unary ⟨start, operand.span.stop⟩ operator operand)) operand.content Expr.content :=
      fun operand => .pure (Expr.content_unary _ _ _)
    exact .ite (applies.bind built) (casts.bind built)

end Operators

section Suffixes

variable {assignment expression : Parse Expr} {typeName : Parse CType}
  (assigns : Reads word assignment 0 Expr.content)
  (evaluates : Reads word expression 0 Expr.content)
  (names : Reads word typeName 0 CType.content)

include assigns names in
theorem argumentsForm_reads (typesAllowed : Bool) (budget : Nat) :
    Reads word (argumentsForm typesAllowed assignment typeName budget) 0
      (listContent Expr.content) := by
  have step : Reads word (argumentStep typesAllowed assignment typeName) 0
      (optionalContent fun entry => Expr.content entry.1) := by
    refine .get fun state => ?_
    have built : ∀ argument : Expr, Reads word (do
        return some (argument, ← acceptMark .comma)) argument.content
        (optionalContent fun entry => Expr.content entry.1) :=
      fun argument => .skip (.acceptMark _) fun _ => .pure rfl
    have typed : ∀ (span : Span) (type : CType),
        Reads word (pure (Expr.typeArgument span type)) type.content Expr.content :=
      fun span type => .pure (Expr.content_typeArgument _ _)
    refine Reads.ite ?_ (assigns.bind built) state
    exact names.bind fun type => .skip (.spanFrom _) fun span => (typed span type).bind built
  refine .skip (.acceptMark _) fun _ => .ite (.pure rfl) ?_
  exact (Reads.collect step budget).bind fun arguments => .skip (.expectMark _ _) fun _ => .pure rfl

include assigns evaluates names in
theorem suffixStep_reads (budget : Nat) (operand : Expr) :
    Reads word (suffixStep expression assignment typeName budget operand) operand.content
      fun taken => taken.elim operand.content Expr.content := by
  have member (throughPointer : Bool) : Reads word (do
      let name ← expectIdentifier "member access"
      return some (.member (← spanFrom operand.span.start) operand name throughPointer))
      operand.content (fun taken : Option Expr => taken.elim operand.content Expr.content) := by
    refine (expectIdentifier_reads _).step fun name => .skip (.spanFrom _) fun span => .pure ?_
    exact (Expr.content_member _ _ _ _).trans (add_comm _ _)
  refine .get fun state => ?_
  split
  · next ahead =>
    refine .advance ahead trivial (evaluates.step fun index => .skip (.expectMark _ _) fun _ =>
      .skip (.spanFrom _) fun span => .pure (Expr.content_binary _ _ _ _))
  · next ahead =>
    refine .advance ahead trivial ((argumentsForm_reads assigns names _ budget).step
      fun arguments => .skip (.spanFrom _) fun span => .pure (Expr.content_call _ _ _))
  · next ahead => exact .advance ahead trivial (member false)
  · next ahead => exact .advance ahead trivial (member true)
  · next ahead =>
    exact .advance ahead trivial (.skip (.spanFrom _) fun span => .pure (Expr.content_unary _ _ _))
  · next ahead =>
    exact .advance ahead trivial (.skip (.spanFrom _) fun span => .pure (Expr.content_unary _ _ _))
  · exact Reads.pure rfl state

include assigns evaluates names in
theorem suffixesForm_reads (budget : Nat) (operand : Expr) :
    Reads word (suffixesForm expression assignment typeName budget operand) operand.content Expr.content :=
  Reads.iterateWithin (suffixStep_reads assigns evaluates names budget) budget operand

include evaluates in
theorem primaryForm_reads : Reads word (primaryForm expression) 0 Expr.content := by
  refine .skip .location fun start state value after runs => ?_
  obtain ⟨found, between, takes, runs⟩ := bind_ok runs
  obtain ⟨tokens, typedefs, fileEnd⟩ := state
  cases tokens with
  | nil =>
    cases takes
    exact Reads.unexpected _ _ _ _ _ runs
  | cons token rest =>
    cases takes
    have plain {parser : Parse Expr} (isPlain : IsPlain token.lexeme)
        (reads : Reads word parser 0 Expr.content)
        (runs : parser.run ⟨rest, typedefs, fileEnd⟩ = .ok value after) :
        ∃ more, value.content = 0 + more ∧ Covers word (token :: rest) after.tokens 0 more := by
      obtain ⟨more, same, covers⟩ := reads _ value after runs
      refine ⟨more, same, ?_⟩
      rw [← zero_add more]
      exact (Covers.token isPlain rest 0).trans (by rwa [add_zero])
    have literal (isPlain : IsPlain token.lexeme) {build : Span → Expr}
        (empty : ∀ span, (build span).content = 0)
        (runs : (do return build (← spanFrom start) : Parse Expr).run ⟨rest, typedefs, fileEnd⟩ =
          .ok value after) :
        ∃ more, value.content = 0 + more ∧ Covers word (token :: rest) after.tokens 0 more :=
      plain isPlain (.skip (.spanFrom _) fun span => .pure (empty span)) runs
    split at runs
    · next is => exact literal (by rw [Option.some.inj is]; trivial) (fun _ => rfl) runs
    · next is => exact literal (by rw [Option.some.inj is]; trivial) (fun _ => rfl) runs
    · next is => exact literal (by rw [Option.some.inj is]; trivial) (fun _ => rfl) runs
    · next is =>
      exact plain (by rw [Option.some.inj is]; trivial)
        (.skip .stringPieces fun _ => .skip (.spanFrom _) fun span => .pure rfl) runs
    · next name is =>
      obtain ⟨span, behind, spans, runs⟩ := bind_ok runs
      cases spans
      cases runs
      exact ⟨.ofName name, (zero_add _).symm, .identifier (Option.some.inj is) rest 0⟩
    · next is =>
      exact plain (by rw [Option.some.inj is]; trivial)
        (evaluates.bind fun inner => .skip (.expectMark _ _) fun _ => .pure rfl) runs
    · cases runs
    · cases runs

end Suffixes

section Initializers

variable {assignment conditional : Parse Expr} {initializer item : Parse Initializer}

theorem initializerForm_reads (assigns : Reads word assignment 0 Expr.content)
    (lists : Reads word item 0 Initializer.content) (budget : Nat) :
    Reads word (initializerForm assignment item budget) 0 Initializer.content := by
  have step : Reads word (initializerForm.itemStep item) 0
      (optionalContent fun entry => Initializer.content entry.1) := by
    refine .get fun state => Reads.ite (.pure rfl) ?_ state
    exact lists.bind fun value => .skip (.acceptMark _) fun _ => .pure rfl
  refine .skip .location fun start => .skip (.acceptMark _) fun _ => .ite ?_ ?_
  · exact (Reads.collect step budget).bind fun items => .skip (.expectMark _ _) fun _ =>
      .skip (.spanFrom _) fun span => .pure (Initializer.content_list _ _)
  · exact assigns.bind fun value => .skip (.spanFrom _) fun span =>
      .pure (Initializer.content_expression _ _)

theorem initializerItemForm_reads (chooses : Reads word conditional 0 Expr.content)
    (initializes : Reads word initializer 0 Initializer.content) (budget : Nat) :
    Reads word (initializerItemForm conditional initializer budget) 0 Initializer.content := by
  have step : Reads word (designatorStep conditional) 0
      (optionalContent fun entry => Designator.content entry.1) := by
    refine .skip (.acceptMark _) fun _ => .ite ?_ (.skip (.acceptMark _) fun _ => ?_)
    · exact .skip (.expectIdentifier _) fun name => .pure rfl
    · exact .ite (chooses.bind fun index => .skip (.expectMark _ _) fun _ =>
        .pure (Designator.content_index _)) (.pure rfl)
  refine .skip .location fun start => (Reads.collect step budget).bind fun designators => ?_
  cases designators with
  | nil => exact initializes
  | cons first others =>
    exact .skip (.expectMark _ _) fun _ => initializes.step fun value =>
      .skip (.spanFrom _) fun span => .pure (Initializer.content_designated _ _ _)

end Initializers

end Parser

end InlineMacro
