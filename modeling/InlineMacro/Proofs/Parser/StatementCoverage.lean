import InlineMacro.Proofs.Parser.ExpressionCoverage

/-!
# Declarations and statements cover their tokens

A declaration repeats its type for each name behind the first; all other productions use what they
take once.
-/

set_option autoImplicit false

namespace InlineMacro

namespace Parser

variable {word : String → Prop}

/-! ## Declarations -/

section Declarations

variable {given : Specifiers} {declarator : Parse Declarator} {initializer : Parse Initializer}
  (declares : Reads word declarator 0 Declarator.content)
  (initializes : Reads word initializer 0 Initializer.content)

include initializes in
theorem initDeclarator_reads (given : Specifiers) (start : Location) (name : Option String) (type : CType) :
    Reads word (initDeclarator given start name type initializer) (.ofOption name + type.content)
      Declaration.content := by
  cases name with
  | none => exact .skip .location fun _ => .fault _ _
  | some name =>
    have built : ∀ value : Option Initializer, Reads word (do
        return {
          name := name
          type := type
          storage := given.storage
          isInline := given.isInline
          initializer := value
          span := ← spanFrom start })
        (.ofOption (some name) + type.content + optionalContent Initializer.content value)
        Declaration.content := fun value => .skip (.spanFrom _) fun span => .pure rfl
    have valued : Reads word (some <$> initializer) 0 (optionalContent Initializer.content) :=
      initializes.map fun _ => rfl
    have plain := built none
    rw [optionalContent_none, add_zero] at plain
    refine .ite (.skip (.addTypedef _) fun _ => ?_) (.skip (.removeTypedef _) fun _ => ?_)
    · exact .skip (.acceptMark _) fun _ => .ite (valued.step built) plain
    · exact .skip (.acceptMark _) fun _ => .ite (valued.step built) plain

include declares initializes in
theorem furtherDeclarator_reads (specified : IsSpecified given.base) (start : Location) (known : Content) :
    Reads word (furtherDeclarator given start declarator initializer) (given.base.content + known)
      fun taken => given.base.content + known +
        optionalContent (fun entry => Declaration.content entry.1) taken := by
  refine .skip (.acceptMark _) fun _ => .ite (.again specified ?_) (.pure (add_zero _))
  refine declares.step fun declared => ?_
  have further := (initDeclarator_reads initializes given start declared.name
    (declared.typeFrom given.base.withoutBodies)).widen (given.base.content + known)
  rw [Declarator.content_declared, ← add_assoc] at further
  exact further.bind fun declaration => .pure rfl

include declares initializes in
theorem initDeclarators_reads (specified : IsSpecified given.base) (start : Location)
    (first : Declarator) (budget : Nat) :
    Reads word (initDeclarators given start first declarator initializer budget)
      (given.base.content + first.content) (listContent Declaration.content) := by
  have leading := initDeclarator_reads initializes given start first.name (first.typeFrom given.base)
  rw [Declarator.content_declared] at leading
  refine leading.bindKnown fun declaration more same => ?_
  have further (others : Content) :=
    furtherDeclarator_reads declares initializes specified start (first.content + more + others)
  simp only [← add_assoc] at further
  refine (Reads.collectWithin further budget).bind fun others =>
    .skip (.expectMark _ _) fun _ => .pure ?_
  rw [listContent_cons, same]

include declares initializes in
theorem localDeclarationForm_reads {specifiers : Parse Specifiers}
    (reads : Reads word specifiers 0 Specifiers.content)
    (specified : Delivers specifiers fun given => IsSpecified given.base) (budget : Nat) :
    Reads word (localDeclarationForm specifiers declarator initializer budget) 0 Statement.content := by
  refine .skip .location fun start => reads.stepWith specified fun given isSpecified =>
    .skip (.acceptMark _) fun _ => ?_
  rw [zero_add]
  refine .ite (.skip (.spanFrom _) fun _ => .pure (Statement.content_typeDefinition _ _)) ?_
  refine declares.step fun first =>
    (initDeclarators_reads declares initializes isSpecified start first budget).bind
      fun declarations => .skip (.spanFrom _) fun _ => .pure (Statement.content_declaration _ _)

end Declarations

/-! ## Statements -/

section Statements

variable {expression conditional : Parse Expr} {localDeclaration block statement : Parse Statement}
  (evaluates : Reads word expression 0 Expr.content)
  (chooses : Reads word conditional 0 Expr.content)
  (declares : Reads word localDeclaration 0 Statement.content)
  (blocks : Reads word block 0 Statement.content)
  (acts : Reads word statement 0 Statement.content)

include evaluates in
theorem conditionForm_reads (context : String) :
    Reads word (conditionForm expression context) 0 Expr.content :=
  .skip (.expectMark _ _) fun _ => evaluates.bind fun _ =>
    .skip (.expectMark _ _) fun _ => .pure rfl

include acts in
theorem blockForm_reads (budget : Nat) :
    Reads word (blockForm statement budget) 0 Statement.content := by
  have step : Reads word (statementStep statement) 0
      (optionalContent fun entry => Statement.content entry.1) := by
    refine .get fun state => Reads.ite (.pure rfl) ?_ state
    exact acts.bind fun _ => .pure rfl
  have inside : Reads word (do
      let statements ← collectWithin (statementStep statement) budget
      expectMark .rightBrace "compound statement"
      pure statements) 0 (listContent Statement.content) :=
    (Reads.collect step budget).bind fun _ => .skip (.expectMark _ _) fun _ => .pure rfl
  exact .skip .location fun start => .skip (.expectMark _ _) fun _ => inside.inScope.bind
    fun statements => .skip (.spanFrom _) fun span => .pure (Statement.content_block _ _)

include evaluates acts in
theorem ifForm_reads : Reads word (ifForm expression statement) 0 Statement.content := by
  refine .skip .location fun start => .skip (.expectKeyword rfl _) fun _ =>
    (conditionForm_reads evaluates _).bind fun condition => acts.step fun thenBranch => ?_
  have built : ∀ elseBranch : Option Statement, Reads word (do
      return .ifElse (← spanFrom start) condition thenBranch elseBranch)
      (condition.content + thenBranch.content + optionalContent Statement.content elseBranch)
      Statement.content :=
    fun elseBranch => .skip (.spanFrom _) fun span => .pure (Statement.content_ifElse _ _ _ _)
  have other : Reads word (some <$> statement) 0 (optionalContent Statement.content) :=
    acts.map fun _ => rfl
  have plain := built none
  rw [optionalContent_none, add_zero] at plain
  exact .skip (.acceptKeyword rfl) fun _ => .ite (other.step built) plain

include evaluates acts in
theorem whileForm_reads : Reads word (whileForm expression statement) 0 Statement.content :=
  .skip .location fun _ => .skip (.expectKeyword rfl _) fun _ =>
    (conditionForm_reads evaluates _).bind fun _ => acts.step fun _ =>
      .skip (.spanFrom _) fun _ => .pure (Statement.content_whileLoop _ _ _)

include evaluates acts in
theorem doWhileForm_reads : Reads word (doWhileForm expression statement) 0 Statement.content :=
  .skip .location fun _ => .skip (.expectKeyword rfl _) fun _ => acts.bind fun _ =>
    .skip (.expectKeyword rfl _) fun _ => (conditionForm_reads evaluates _).step fun _ =>
      .skip (.expectMark _ _) fun _ => .skip (.spanFrom _) fun _ =>
        .pure (Statement.content_doWhile _ _ _)

include evaluates declares in
theorem loopInitForm_reads : Reads word (loopInitForm expression localDeclaration) 0
    (optionalContent Statement.content) := by
  refine .skip (.acceptMark _) fun _ => .ite (.pure rfl) (.get fun state => Reads.ite ?_ ?_ state)
  · exact declares.map fun _ => rfl
  · exact .skip .location fun start => evaluates.bind fun value => .skip (.expectMark _ _) fun _ =>
      .skip (.spanFrom _) fun span => .pure (Statement.content_expression _ _)

include evaluates in
theorem optionalBefore_reads (mark : Mark) (context : String) :
    Reads word (optionalBefore mark context expression) 0 (optionalContent Expr.content) := by
  have closes : ∀ value : Option Expr, Reads word (do expectMark mark context; pure value)
      (optionalContent Expr.content value) (optionalContent Expr.content) :=
    fun value => .skip (.expectMark _ _) fun _ => .pure rfl
  have valued : Reads word (some <$> expression) 0 (optionalContent Expr.content) :=
    evaluates.map fun _ => rfl
  exact .get fun state => Reads.ite (closes none) (valued.bind closes) state

include evaluates declares acts in
theorem forForm_reads : Reads word (forForm expression localDeclaration statement) 0 Statement.content := by
  refine .skip .location fun start => .skip (.expectKeyword rfl _) fun _ =>
    .skip (.expectMark _ _) fun _ => .inScope ?_
  refine (loopInitForm_reads evaluates declares).bind fun init =>
    (optionalBefore_reads evaluates _ _).step fun condition =>
      (optionalBefore_reads evaluates _ _).step fun update => acts.step fun body =>
        .skip (.spanFrom _) fun span => .pure (Statement.content_forLoop _ _ _ _ _)

include evaluates acts in
theorem switchForm_reads : Reads word (switchForm expression statement) 0 Statement.content :=
  .skip .location fun _ => .skip (.expectKeyword rfl _) fun _ =>
    (conditionForm_reads evaluates _).bind fun _ => acts.step fun _ =>
      .skip (.spanFrom _) fun _ => .pure (Statement.content_switch _ _ _)

section Ahead

variable {state : State} {lexeme : Lexeme} (ahead : state.lexeme? = some lexeme)
  (plain : IsPlain lexeme)

include ahead plain chooses acts in
theorem caseForm_reads : ReadsFrom word state (caseForm conditional statement) 0 Statement.content :=
  .location (.advance ahead plain (chooses.bind fun _ => .skip (.expectMark _ _) fun _ =>
    acts.step fun _ => .skip (.spanFrom _) fun _ =>
      .pure (Statement.content_caseLabel _ _ _)))

include ahead plain acts in
theorem defaultForm_reads : ReadsFrom word state (defaultForm statement) 0 Statement.content :=
  .location (.advance ahead plain (.skip (.expectMark _ _) fun _ => acts.bind fun _ =>
    .skip (.spanFrom _) fun _ => .pure (Statement.content_defaultLabel _ _)))

include ahead plain evaluates in
theorem returnForm_reads : ReadsFrom word state (returnForm expression) 0 Statement.content :=
  .location (.advance ahead plain ((optionalBefore_reads evaluates _ _).bind fun _ =>
    .skip (.spanFrom _) fun _ => .pure (Statement.content_returnStatement _ _)))

include ahead plain in
theorem gotoForm_reads : ReadsFrom word state gotoForm 0 Statement.content :=
  .location (.advance ahead plain ((expectIdentifier_reads _).bind fun _ =>
    .skip (.expectMark _ _) fun _ => .skip (.spanFrom _) fun _ => .pure rfl))

include ahead plain in
theorem wordForm_reads (context : String) {build : Span → Statement}
    (empty : ∀ span, (build span).content = 0) :
    ReadsFrom word state (wordForm context build) 0 Statement.content :=
  .location (.advance ahead plain (.skip (.expectMark _ _) fun _ => .skip (.spanFrom _) fun span =>
    .pure (empty span)))

end Ahead

include acts in
theorem labelForm_reads {state : State} {label : String}
    (ahead : state.lexeme? = some (.identifier label))
    (behind : state.secondLexeme? = some (.mark .colon)) :
    ReadsFrom word state (labelForm label statement) 0 Statement.content := by
  refine .location ?_
  intro value after runs
  obtain ⟨_, between, takes, runs⟩ := bind_ok runs
  obtain ⟨tokens, typedefs, fileEnd⟩ := state
  cases tokens with
  | nil => cases ahead
  | cons token rest =>
    cases takes
    have colon : State.lexeme? ⟨rest, typedefs, fileEnd⟩ = some (.mark .colon) := behind
    have reads (start : Location) : ReadsFrom word ⟨rest, typedefs, fileEnd⟩ (do
        discard advance
        let labelled ← statement
        return .labelled (← spanFrom start) label labelled) (.ofName label) Statement.content :=
      .advance colon trivial (acts.step fun _ => .skip (.spanFrom _) fun _ =>
        .pure (Statement.content_labelled _ _ _))
    obtain ⟨more, same, covers⟩ := reads _ value after runs
    refine ⟨.ofName label + more, by rw [same, zero_add], ?_⟩
    have first : Covers word (token :: rest) rest 0 (.ofName label) :=
      .identifier (Option.some.inj ahead) rest 0
    exact first.trans (by rwa [zero_add])

include evaluates declares in
theorem declarationOrExpressionForm_reads :
    Reads word (declarationOrExpressionForm expression localDeclaration) 0 Statement.content := by
  refine .get fun state => Reads.ite declares ?_ state
  exact evaluates.bind fun value => .skip (.expectMark _ _) fun _ => .skip (.spanFrom _) fun span =>
    .pure (Statement.content_expression _ _)

include evaluates chooses declares blocks acts in
theorem statementForm_reads :
    Reads word (statementForm expression conditional localDeclaration block statement) 0
      Statement.content := by
  refine .get fun state => ?_
  split
  · exact Reads.fault _ _ state
  · exact blocks state
  · exact ifForm_reads evaluates acts state
  · exact whileForm_reads evaluates acts state
  · exact doWhileForm_reads evaluates acts state
  · exact forForm_reads evaluates declares acts state
  · exact switchForm_reads evaluates acts state
  · next ahead => exact caseForm_reads chooses acts ahead rfl
  · next ahead => exact defaultForm_reads acts ahead rfl
  · next ahead => exact wordForm_reads ahead rfl _ fun _ => rfl
  · next ahead => exact wordForm_reads ahead rfl _ fun _ => rfl
  · next ahead => exact returnForm_reads evaluates ahead rfl
  · next ahead => exact gotoForm_reads ahead rfl
  · next ahead => exact .advance ahead trivial (.skip (.spanFrom _) fun span => .pure rfl)
  · exact Reads.fault _ _ state
  · next name ahead =>
    split
    · next behind => exact labelForm_reads acts ahead (beq_iff_eq.mp behind)
    · exact declarationOrExpressionForm_reads evaluates declares state
  · exact declarationOrExpressionForm_reads evaluates declares state

end Statements

end Parser

end InlineMacro
