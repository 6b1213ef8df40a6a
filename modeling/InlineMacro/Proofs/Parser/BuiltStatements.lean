import InlineMacro.Proofs.Parser.BuiltTrees

/-!
# Properties of the statements that are read

Statements change the names of types: a property of them is one of the names before, of the statement
and of the names behind it. One that every way of building statements keeps holds of all that is
read. What stands behind a statement matters for `else` alone: none stands behind a branch that could
take it.
-/

set_option autoImplicit false

namespace InlineMacro

def Declaration.typesBehind (declaration : Declaration) (typedefs : List String) : List String :=
  if declaration.isTypedef then
    if typedefs.contains declaration.name then typedefs else declaration.name :: typedefs
  else typedefs.filter (· != declaration.name)

def Statement.isOpen : Statement → Bool
  | .ifElse _ _ _ none => true
  | .ifElse _ _ _ (some elseBranch) => elseBranch.isOpen
  | .whileLoop _ _ body | .forLoop _ _ _ _ body | .switch _ _ body => body.isOpen
  | .caseLabel _ _ statement | .defaultLabel _ statement | .labelled _ _ statement => statement.isOpen
  | _ => false

namespace Parser

variable {given : Lexeme → Prop} {α β : Type}

/-! ## Properties -/

/-- Properties of statements and of groups of items, with the names of types before and behind. -/
structure StatementProperty where
  tree : List String → TreeProperty
  statement : List String → Statement → List String → Prop
  items : List String → List Item → List String → Prop

/-- Steps one after another, each from where the one before it ends. -/
inductive Threaded {σ : Type} (step : σ → α → σ → Prop) : σ → List α → σ → Prop where
  | nil (start : σ) : Threaded step start [] start
  | cons {start middle stop : σ} {value : α} {values : List α} (first : step start value middle)
    (rest : Threaded step middle values stop) : Threaded step start (value :: values) stop

theorem Threaded.forall_mem {σ : Type} {step : σ → α → σ → Prop} {start stop : σ} {values : List α}
    {each : α → Prop} (threaded : Threaded step start values stop)
    (gives : ∀ before value after, step before value after → each value) : ∀ value ∈ values, each value := by
  induction threaded with
  | nil => exact fun _ member => absurd member List.not_mem_nil
  | cons first _ ih => exact List.forall_mem_cons.mpr ⟨gives _ _ _ first, ih⟩

namespace StatementProperty

variable (given : Lexeme → Prop) (holds : StatementProperty)

/-- A name is declared with specifiers of which the type is given: its declarator stands among the
names of types before it, its initializer among those behind it. -/
def declares (words : Specifiers) (base : CType) (before : List String) (declaration : Declaration)
    (after : List String) : Prop :=
  (∃ declared, (holds.tree before).declarator given declared ∧ declared.name = some declaration.name ∧
    declaration.type = declared.typeFrom base) ∧
  declaration.storage = words.storage ∧ declaration.isInline = words.isInline ∧
  after = declaration.typesBehind before ∧
  ∀ value ∈ declaration.initializer, (holds.tree after).initializer value

def declaresAll (words : Specifiers) (before : List String) (declarations : List Declaration)
    (after : List String) : Prop :=
  (holds.tree before).base words.base ∧
  ∃ first others middle, declarations = first :: others ∧
    holds.declares given words words.base before first middle ∧
    Threaded (holds.declares given words words.base.withoutBodies) middle others after

def loopInit (before : List String) (init : Option Statement) (after : List String) : Prop :=
  match init with
  | none => after = before
  | some (.expression _ value) => after = before ∧ (holds.tree before).expr value
  | some (.declaration _ declarations) => ∃ words, holds.declaresAll given words before declarations after
  | some (.typeDefinition _ type) => after = before ∧ (holds.tree before).base type
  | _ => False

/-- The properties hold of each statement if they hold of its parts, as far as the parser builds one
from the other. -/
structure Closed : Prop where
  trees : ∀ typedefs, (holds.tree typedefs).Closed given typedefs
  expression : ∀ types span value, (holds.tree types).expr value →
    holds.statement types (.expression span value) types
  block : ∀ types behind span statements, Threaded holds.statement types statements behind →
    holds.statement types (.block span statements) types
  declaration : ∀ types behind span words declarations,
    holds.declaresAll given words types declarations behind →
    holds.statement types (.declaration span declarations) behind
  typeDefinition : ∀ types span type, (holds.tree types).base type →
    holds.statement types (.typeDefinition span type) types
  ifThen : ∀ types behind span condition thenBranch, (holds.tree types).expr condition →
    holds.statement types thenBranch behind →
    holds.statement types (.ifElse span condition thenBranch none) behind
  ifElse : ∀ types middle behind span condition thenBranch elseBranch,
    (holds.tree types).expr condition → holds.statement types thenBranch middle →
    thenBranch.isOpen = false → holds.statement middle elseBranch behind →
    holds.statement types (.ifElse span condition thenBranch (some elseBranch)) behind
  whileLoop : ∀ types behind span condition body, (holds.tree types).expr condition →
    holds.statement types body behind → holds.statement types (.whileLoop span condition body) behind
  forLoop : ∀ types middle behind span init condition update body,
    holds.loopInit given types init middle →
    (∀ value ∈ condition, (holds.tree middle).expr value) →
    (∀ value ∈ update, (holds.tree middle).expr value) → holds.statement middle body behind →
    holds.statement types (.forLoop span init condition update body) types
  doWhile : ∀ types behind span body condition, holds.statement types body behind →
    (holds.tree behind).expr condition → holds.statement types (.doWhile span body condition) behind
  switch : ∀ types behind span subject body, (holds.tree types).expr subject →
    holds.statement types body behind → holds.statement types (.switch span subject body) behind
  caseLabel : ∀ types behind span value statement, (holds.tree types).expr value →
    holds.statement types statement behind →
    holds.statement types (.caseLabel span value statement) behind
  defaultLabel : ∀ types behind span statement, holds.statement types statement behind →
    holds.statement types (.defaultLabel span statement) behind
  breakStatement : ∀ types span, holds.statement types (.breakStatement span) types
  continueStatement : ∀ types span, holds.statement types (.continueStatement span) types
  returnStatement : ∀ types span value, (∀ result ∈ value, (holds.tree types).expr result) →
    holds.statement types (.returnStatement span value) types
  gotoStatement : ∀ types span label, given (.identifier label) →
    holds.statement types (.gotoStatement span label) types
  labelled : ∀ types behind span label statement, given (.identifier label) →
    holds.statement types statement behind → holds.statement types (.labelled span label statement) behind
  empty : ∀ types span, holds.statement types (.empty span) types
  nothing : ∀ types, holds.items types [] types
  typeItem : ∀ types span type, (holds.tree types).base type →
    holds.items types [.typeDefinition type span] types
  declarations : ∀ types behind words declarations,
    holds.declaresAll given words types declarations behind →
    holds.items types (declarations.map .declaration) behind
  function : ∀ types definition, given (.identifier definition.name) →
    (holds.tree types).type definition.type → definition.body.isBlock →
    holds.statement types definition.body types → holds.items types [.function definition] types

end StatementProperty

/-! ## Parsers that change the names of types -/

/-- In some state a parser takes tokens of use. Where the tokens have some property, what it reads and
the state behind it have another. -/
def ReachesFrom (given : Lexeme → Prop) (state : State) (parser : Parse α) (holds : α → State → Prop) :
    Prop :=
  (∀ token ∈ state.tokens, given token.lexeme) →
    ∀ value after, parser.run state = .ok value after →
      Passes state.tokens after.tokens ∧ holds value after

namespace ReachesFrom

variable {state : State} {parser other : Parse α} {holds middle : α → State → Prop}

theorem pure {value : α} (reached : holds value state) : ReachesFrom given state (Pure.pure value) holds := by
  intro _ result after runs
  cases runs
  exact ⟨.refl _, reached⟩

theorem failure {parser : Parse α} (fails : ∀ value after, parser.run state ≠ .ok value after) :
    ReachesFrom given state parser holds :=
  fun _ value after runs => absurd runs (fails value after)

theorem exhausted : ReachesFrom given state (Parser.exhausted : Parse α) holds :=
  .failure fun _ _ => nofun

theorem fault (location : Location) (cause : SyntaxFault) :
    ReachesFrom given state (Parser.fault location cause : Parse α) holds :=
  .failure fun _ _ => nofun

theorem bind {next : α → Parse β} {result : β → State → Prop} (first : ReachesFrom given state parser middle)
    (rest : ∀ value between, middle value between → ReachesFrom given between (next value) result) :
    ReachesFrom given state (parser >>= next) result := by
  intro all value after runs
  obtain ⟨read, between, firstRuns, restRuns⟩ := bind_ok runs
  obtain ⟨passes, reached⟩ := first all read between firstRuns
  obtain ⟨morePasses, result⟩ :=
    rest read between reached (passes.forall_mem all) value after restRuns
  exact ⟨passes.trans morePasses, result⟩

theorem mono {weaker : α → State → Prop} (reaches : ReachesFrom given state parser holds)
    (weakens : ∀ value after, holds value after → weaker value after) :
    ReachesFrom given state parser weaker := by
  intro all value after runs
  obtain ⟨passes, reached⟩ := reaches all value after runs
  exact ⟨passes, weakens value after reached⟩

theorem map {change : α → β} {result : β → State → Prop}
    (first : ReachesFrom given state parser fun value after => result (change value) after) :
    ReachesFrom given state (change <$> parser) result := by
  rw [map_eq_pure_bind]
  exact first.bind fun _ _ reached => .pure reached

theorem of_builds {post : α → Prop} (builds : Builds given state.typedefs parser post) :
    ReachesFrom given state parser fun value after => after.typedefs = state.typedefs ∧ post value := by
  intro all value after runs
  have built := builds state rfl all
  rw [runs] at built
  exact ⟨built.1, built.2⟩

theorem builds {post : α → Prop} {next : α → Parse β} {result : β → State → Prop}
    (first : Builds given state.typedefs parser post)
    (rest : ∀ value between, between.typedefs = state.typedefs → post value →
      ReachesFrom given between (next value) result) : ReachesFrom given state (parser >>= next) result :=
  (of_builds first).bind fun value between ⟨same, reached⟩ => rest value between same reached

theorem present (reaches : ReachesFrom given state parser holds) :
    ReachesFrom given state (some <$> parser) fun found after =>
      ∃ value, found = some value ∧ holds value after :=
  map (reaches.mono fun value _ reached => ⟨value, rfl, reached⟩)

theorem ite {condition : Prop} [Decidable condition] (first : ReachesFrom given state parser holds)
    (second : ReachesFrom given state other holds) :
    ReachesFrom given state (if condition then parser else other) holds := by
  split
  · exact first
  · exact second

theorem get {next : State → Parse α} (rest : ReachesFrom given state (next state) holds) :
    ReachesFrom given state (MonadState.get >>= next) holds := rest

theorem location {next : Location → Parse α}
    (rest : ∀ location, ReachesFrom given state (next location) holds) :
    ReachesFrom given state (Parser.location >>= next) holds := rest _

theorem spanFrom {start : Location} {next : Span → Parse α}
    (rest : ∀ span, ReachesFrom given state (next span) holds) :
    ReachesFrom given state (Parser.spanFrom start >>= next) holds := rest _

theorem advance {next : Unit → Parse α} {lexeme : Lexeme} (ahead : state.lexeme? = some lexeme)
    (used : lexeme.isUsed) (rest : given lexeme → ∀ between : State, between.typedefs = state.typedefs →
      between.lexeme? = state.secondLexeme? → ReachesFrom given between (next ()) holds) :
    ReachesFrom given state (discard Parser.advance >>= next) holds := by
  obtain ⟨tokens, typedefs, fileEnd⟩ := state
  cases tokens with
  | nil => cases ahead
  | cons token tokens =>
    cases ahead
    intro all value after runs
    obtain ⟨passes, reached⟩ := rest (all token List.mem_cons_self) ⟨tokens, typedefs, fileEnd⟩ rfl rfl
      (fun other member => all other (List.mem_cons_of_mem _ member)) value after runs
    exact ⟨(Passes.token used tokens).trans passes, reached⟩

theorem modify {change : State → State} {next : Unit → Parse α} (keeps : (change state).tokens = state.tokens)
    (rest : ReachesFrom given (change state) (next ()) holds) :
    ReachesFrom given state (modify change >>= next) holds := by
  intro all value after runs
  have reached := rest (keeps ▸ all) value after runs
  rwa [keeps] at reached

theorem acceptKeyword {keyword : Keyword} (used : (Lexeme.keyword keyword).isUsed) :
    ReachesFrom given state (Parser.acceptKeyword keyword) fun accepted after =>
      after.typedefs = state.typedefs ∧
        if accepted then state.lexeme? = some (.keyword keyword)
        else after.lexeme? ≠ some (.keyword keyword) := by
  refine .get ?_
  split
  · next isAt =>
    have ahead : state.lexeme? = some (.keyword keyword) := beq_iff_eq.mp isAt
    exact .advance ahead used fun _ between same _ => .pure ⟨same, ahead⟩
  · next notAt => exact .pure ⟨rfl, fun ahead => notAt (beq_iff_eq.mpr ahead)⟩

theorem inScope {post : α → State → Prop} (inner : ReachesFrom given state parser post) :
    ReachesFrom given state (Parser.inScope parser) fun value after =>
      after.typedefs = state.typedefs ∧
        ∃ between, post value between ∧ after.lexeme? = between.lexeme? := by
  refine .get (inner.bind fun value between reached => ?_)
  refine .modify rfl (.pure ⟨rfl, between, reached, rfl⟩)

theorem collectWithin {step : Parse (Option (α × Bool))} {each : List String → α → List String → Prop}
    (steps : ∀ state, ReachesFrom given state step fun taken after =>
      taken.elim (after.typedefs = state.typedefs) fun entry =>
        each state.typedefs entry.1 after.typedefs) (budget : Nat) (state : State) :
    ReachesFrom given state (Parser.collectWithin step budget) fun values after =>
      Threaded each state.typedefs values after.typedefs := by
  induction budget generalizing state with
  | zero => exact .exhausted
  | succ budget ih =>
    rw [Parser.collectWithin]
    refine (steps state).bind fun taken between reached => ?_
    rcases taken with none | ⟨item, last | further⟩
    · have same : between.typedefs = state.typedefs := reached
      exact .pure (same ▸ .nil _)
    · exact .pure (.cons reached (.nil _))
    · exact (ih between).bind fun values after threaded => .pure (.cons reached threaded)

end ReachesFrom

/-! ## Declarations -/

section Declarations

variable {holds : StatementProperty} {specifiers : Parse Specifiers} {declarator : Parse Declarator}
  {initializer : Parse Initializer}
  (bases : ∀ typedefs, Builds given typedefs specifiers fun read => (holds.tree typedefs).base read.base)
  (declarators : ∀ typedefs, Builds given typedefs declarator ((holds.tree typedefs).declarator given))
  (initializers : ∀ typedefs, Builds given typedefs initializer (holds.tree typedefs).initializer)

theorem Builds.present {typedefs : List String} {parser : Parse α} {post : α → Prop}
    (builds : Builds given typedefs parser post) :
    Builds given typedefs (some <$> parser) fun found => ∀ value ∈ found, post value := by
  refine builds.map fun value built => ?_
  rintro other ⟨⟩
  exact built

include initializers in
theorem initDeclarator_reaches (words : Specifiers) (start : Location) {state : State}
    {declared : Declarator} (base : CType)
    (built : (holds.tree state.typedefs).declarator given declared) :
    ReachesFrom given state
      (initDeclarator words start declared.name (declared.typeFrom base) initializer)
      fun declaration after =>
        holds.declares given words base state.typedefs declaration after.typedefs := by
  cases named : declared.name with
  | none => exact .location fun _ => .fault _ _
  | some name =>
    have rest (between : State)
        (same : ∀ value span, between.typedefs = Declaration.typesBehind
          ⟨name, declared.typeFrom base, words.storage, words.isInline, value, span⟩ state.typedefs) :
        ReachesFrom given between (do
          let value ← if ← acceptMark .equal then some <$> initializer else pure none
          return {
            name := name
            type := declared.typeFrom base
            storage := words.storage
            isInline := words.isInline
            initializer := value
            span := ← spanFrom start : Declaration })
          fun declaration after =>
            holds.declares given words base state.typedefs declaration after.typedefs := by
      refine .builds (.acceptMark _) fun _ behind sameTypes _ => .ite ?_ ?_
      · refine .builds (initializers _).present fun value after kept all => .spanFrom fun span =>
          .pure ⟨⟨declared, built, named, rfl⟩, rfl, rfl, ?_, ?_⟩
        · rw [kept, sameTypes, same]
        · rwa [kept]
      · exact .spanFrom fun span => .pure ⟨⟨declared, built, named, rfl⟩, rfl, rfl,
          sameTypes.trans (same _ _), fun _ member => (nomatch member)⟩
    dsimp only [initDeclarator]
    split
    · next isType =>
      refine .modify (by split <;> rfl) (rest _ fun value span => ?_)
      simp only [Declaration.typesBehind, Declaration.isTypedef, isType, beq_self_eq_true, if_true,
        State.isTypedef]
      exact apply_ite State.typedefs _ _ _
    · next notType =>
      refine .modify rfl (rest _ fun value span => ?_)
      simp [Declaration.typesBehind, Declaration.isTypedef, notType]

include declarators initializers in
theorem initDeclarators_reaches {words : Specifiers} (start : Location) {state : State}
    {first : Declarator} (baseBuilt : (holds.tree state.typedefs).base words.base)
    (built : (holds.tree state.typedefs).declarator given first) (budget : Nat) :
    ReachesFrom given state (initDeclarators words start first declarator initializer budget)
      fun declarations after =>
        holds.declaresAll given words state.typedefs declarations after.typedefs := by
  have further (state : State) : ReachesFrom given state
      (furtherDeclarator words start declarator initializer) fun taken after =>
        taken.elim (after.typedefs = state.typedefs) fun entry =>
          holds.declares given words words.base.withoutBodies state.typedefs entry.1 after.typedefs := by
    refine .builds (.acceptMark _) fun _ between same _ => .ite ?_ (.pure same)
    refine .builds (declarators _) fun declared behind sameTypes declaredBuilt => ?_
    rw [← sameTypes] at declaredBuilt
    have reaches := initDeclarator_reaches initializers words start words.base.withoutBodies declaredBuilt
    rw [sameTypes, same] at reaches
    exact reaches.bind fun declaration after declares => .pure declares
  refine (initDeclarator_reaches initializers words start words.base built).bind
    fun leading between declares => (ReachesFrom.collectWithin further budget between).bind
      fun others behind threaded => .builds (.expectMark _ _) fun _ after same _ => .pure ?_
  rw [same]
  exact ⟨baseBuilt, leading, others, between.typedefs, rfl, declares, threaded⟩

def StatementProperty.declared (holds : StatementProperty) (given : Lexeme → Prop)
    (before : List String) (statement : Statement) (after : List String) : Prop :=
  (∃ span type, statement = .typeDefinition span type ∧ after = before ∧
    (holds.tree before).base type) ∨
  ∃ span words declarations, statement = .declaration span declarations ∧
    holds.declaresAll given words before declarations after

include bases declarators initializers in
theorem localDeclarationForm_reaches (budget : Nat) (state : State) :
    ReachesFrom given state (localDeclarationForm specifiers declarator initializer budget)
      fun statement after => holds.declared given state.typedefs statement after.typedefs := by
  refine .location fun start => .builds (bases _) fun words between same baseBuilt =>
    .builds (.acceptMark _) fun _ behind sameTypes _ => .ite ?_ ?_
  · exact .spanFrom fun span => .pure (.inl ⟨span, _, rfl, sameTypes.trans same, baseBuilt⟩)
  · refine .builds (declarators _) fun first ahead kept built => ?_
    rw [← kept] at built
    have all : ahead.typedefs = state.typedefs := kept.trans (sameTypes.trans same)
    have reaches := initDeclarators_reaches declarators initializers start (all ▸ baseBuilt) built budget
    rw [all] at reaches
    exact reaches.bind fun declarations after declares => .spanFrom fun span =>
      .pure (.inr ⟨span, words, declarations, rfl, declares⟩)

end Declarations

/-! ## Statements -/

def StatementProperty.reached (holds : StatementProperty) (before : List String)
    (statement : Statement) (after : State) : Prop :=
  holds.statement before statement after.typedefs ∧
    (statement.isOpen → after.lexeme? ≠ some (.keyword .kwElse))

section Statements

variable {holds : StatementProperty} (closed : holds.Closed given)
  {expression conditional : Parse Expr} {localDeclaration block statement : Parse Statement}
  (expressions : ∀ typedefs, Builds given typedefs expression (holds.tree typedefs).expr)
  (choices : ∀ typedefs, Builds given typedefs conditional (holds.tree typedefs).expr)
  (declarations : ∀ state, ReachesFrom given state localDeclaration fun statement after =>
    holds.declared given state.typedefs statement after.typedefs)
  (blocks : ∀ state, ReachesFrom given state block fun value after =>
    holds.reached state.typedefs value after ∧ value.isBlock ∧ after.typedefs = state.typedefs)
  (statements : ∀ state, ReachesFrom given state statement (holds.reached state.typedefs))

theorem conditionForm_builds {typedefs : List String} {post : Expr → Prop}
    (expressions : Builds given typedefs expression post) (context : String) :
    Builds given typedefs (conditionForm expression context) post :=
  .bind (.expectMark _ _) fun _ _ => expressions.bind fun _ built =>
    .bind (.expectMark _ _) fun _ _ => .pure built

theorem optionalBefore_builds {typedefs : List String} {post : Expr → Prop}
    (expressions : Builds given typedefs expression post) (mark : Mark) (context : String) :
    Builds given typedefs (optionalBefore mark context expression) fun found =>
      ∀ value ∈ found, post value := by
  refine .get fun state same => ?_
  split
  · exact Builds.bind (.pure fun _ member => (nomatch member)) (fun found all =>
      .bind (.expectMark _ _) fun _ _ => .pure all) state same
  · exact expressions.present.bind (fun found all => .bind (.expectMark _ _) fun _ _ => .pure all) state
      same

theorem body_reaches {before : List String}
    (statements : ∀ state, ReachesFrom given state statement (holds.reached state.typedefs))
    {build : Span → Statement → Statement} (start : Location) (state : State)
    (isOpen : ∀ span body, (build span body).isOpen = body.isOpen)
    (built : ∀ span body behind, holds.statement state.typedefs body behind →
      holds.statement before (build span body) behind) :
    ReachesFrom given state (do
        let body ← statement
        return build (← spanFrom start) body) (holds.reached before) := by
  refine (statements state).bind fun body after reached => .spanFrom fun span => .pure ⟨?_, ?_⟩
  · exact built span body _ reached.1
  · rw [isOpen]
    exact reached.2

include closed statements in
theorem blockForm_reaches (budget : Nat) (state : State) :
    ReachesFrom given state (blockForm statement budget) fun value after =>
      holds.reached state.typedefs value after ∧ value.isBlock ∧ after.typedefs = state.typedefs := by
  have step (state : State) : ReachesFrom given state (statementStep statement) fun taken after =>
      taken.elim (after.typedefs = state.typedefs) fun entry =>
        holds.statement state.typedefs entry.1 after.typedefs := by
    refine .get (.ite (.pure rfl) ?_)
    exact (statements state).bind fun value after reached => .pure reached.1
  refine .location fun start => .builds (.expectMark _ _) fun _ between same _ => ?_
  have inner : ReachesFrom given between (do
      let statements ← collectWithin (statementStep statement) budget
      expectMark .rightBrace "compound statement"
      pure statements) fun values after =>
        Threaded holds.statement between.typedefs values after.typedefs :=
    (ReachesFrom.collectWithin step budget between).bind fun values behind threaded =>
      .builds (.expectMark _ _) fun _ after kept _ => .pure (kept ▸ threaded)
  refine inner.inScope.bind fun values after ⟨kept, behind, threaded, _⟩ => .spanFrom fun span =>
    .pure ⟨⟨?_, nofun⟩, rfl, kept.trans same⟩
  rw [same] at threaded kept
  rw [kept]
  exact closed.block _ _ span values threaded

include closed expressions statements in
theorem ifForm_reaches (state : State) :
    ReachesFrom given state (ifForm expression statement) (holds.reached state.typedefs) := by
  refine .location fun start => .builds (.expect rfl _) fun _ between same _ =>
    .builds (conditionForm_builds (expressions _) _) fun condition behind kept built => ?_
  have sameTypes := kept.trans same
  rw [same] at built
  refine (statements behind).bind fun thenBranch after reached => ?_
  rw [sameTypes] at reached
  obtain ⟨thenHolds, closes⟩ := reached
  refine (ReachesFrom.acceptKeyword rfl).bind fun accepted between ⟨kept, ahead⟩ => ?_
  cases accepted with
  | true =>
    have notOpen : thenBranch.isOpen = false := by
      cases isOpen : thenBranch.isOpen with
      | false => rfl
      | true => exact absurd ahead (closes isOpen)
    refine (statements between).present.bind fun found after reached => .spanFrom fun span => ?_
    obtain ⟨elseBranch, rfl, elseHolds, elseCloses⟩ := reached
    rw [kept] at elseHolds
    exact .pure ⟨closed.ifElse _ _ _ span condition thenBranch elseBranch built thenHolds notOpen
      elseHolds, elseCloses⟩
  | false =>
    refine .pure ⟨?_, fun _ => ahead⟩
    rw [kept]
    exact closed.ifThen _ _ _ condition thenBranch built thenHolds

include closed expressions statements in
theorem whileForm_reaches (state : State) :
    ReachesFrom given state (whileForm expression statement) (holds.reached state.typedefs) := by
  refine .location fun start => .builds (.expect rfl _) fun _ between same _ =>
    .builds (conditionForm_builds (expressions _) _) fun condition behind kept built => ?_
  rw [same] at built kept
  exact body_reaches statements start behind (fun _ _ => rfl) fun span body after reached =>
    closed.whileLoop _ _ span condition body built (kept ▸ reached)

include closed expressions statements in
theorem switchForm_reaches (state : State) :
    ReachesFrom given state (switchForm expression statement) (holds.reached state.typedefs) := by
  refine .location fun start => .builds (.expect rfl _) fun _ between same _ =>
    .builds (conditionForm_builds (expressions _) _) fun subject behind kept built => ?_
  rw [same] at built kept
  exact body_reaches statements start behind (fun _ _ => rfl) fun span body after reached =>
    closed.switch _ _ span subject body built (kept ▸ reached)

include closed expressions statements in
theorem doWhileForm_reaches (state : State) :
    ReachesFrom given state (doWhileForm expression statement) (holds.reached state.typedefs) := by
  refine .location fun start => .builds (.expect rfl _) fun _ between same _ =>
    (statements between).bind fun body behind reached => .builds (.expect rfl _) fun _ ahead kept _ =>
      .builds (conditionForm_builds (expressions _) _) fun condition after sameTypes built =>
        .builds (.expectMark _ _) fun _ last lastTypes _ => .spanFrom fun span => .pure ⟨?_, nofun⟩
  have bodyHolds := reached.1
  rw [same] at bodyHolds
  rw [kept] at built sameTypes
  rw [lastTypes, sameTypes]
  exact closed.doWhile _ _ span body condition bodyHolds built

include expressions declarations in
theorem loopInitForm_reaches (state : State) :
    ReachesFrom given state (loopInitForm expression localDeclaration) fun init after =>
      holds.loopInit given state.typedefs init after.typedefs := by
  refine .builds (.acceptMark _) fun _ between same _ => .ite (.pure same) (.get (.ite ?_ ?_))
  · refine (declarations between).present.mono fun found after reached => ?_
    obtain ⟨value, rfl, declared⟩ := reached
    rw [same] at declared
    rcases declared with ⟨span, type, rfl, kept, built⟩ | ⟨span, words, all, rfl, built⟩
    · exact ⟨kept, built⟩
    · exact ⟨words, built⟩
  · refine .location fun start => .builds (expressions _) fun value behind kept built =>
      .builds (.expectMark _ _) fun _ after sameTypes _ => .spanFrom fun span =>
        .pure ⟨sameTypes.trans (kept.trans same), same ▸ built⟩

include closed expressions declarations statements in
theorem forForm_reaches (state : State) :
    ReachesFrom given state (forForm expression localDeclaration statement) (holds.reached state.typedefs) := by
  refine .location fun start => .builds (.expect rfl _) fun _ between same _ =>
    .builds (.expectMark _ _) fun _ behind kept _ => ?_
  have inner : ReachesFrom given behind (do
      let init ← loopInitForm expression localDeclaration
      let condition ← optionalBefore .semicolon "for statement condition" expression
      let update ← optionalBefore .rightParen "for statement" expression
      let body ← statement
      return .forLoop (← spanFrom start) init condition update body) fun value after =>
        holds.statement behind.typedefs value behind.typedefs ∧
          (value.isOpen → after.lexeme? ≠ some (.keyword .kwElse)) := by
    refine (loopInitForm_reaches expressions declarations behind).bind fun init ahead initHolds =>
      .builds (optionalBefore_builds (expressions _) _ _) fun condition next sameTypes conditionHolds =>
        .builds (optionalBefore_builds (expressions _) _ _) fun update last lastTypes updateHolds =>
          (statements last).bind fun body after reached => .spanFrom fun span =>
            .pure ⟨?_, reached.2⟩
    have bodyHolds := reached.1
    rw [lastTypes, sameTypes] at bodyHolds
    rw [sameTypes] at updateHolds
    exact closed.forLoop _ _ _ span init condition update body initHolds conditionHolds updateHolds
      bodyHolds
  refine inner.inScope.mono fun value after ⟨keeps, last, ⟨reached, closes⟩, sameAhead⟩ => ⟨?_, ?_⟩
  · rw [keeps]
    rwa [kept, same] at reached ⊢
  · rwa [sameAhead]

include closed choices statements in
theorem caseForm_reaches (state : State) (ahead : state.lexeme? = some (.keyword .kwCase)) :
    ReachesFrom given state (caseForm conditional statement) (holds.reached state.typedefs) := by
  refine .location fun start => .advance ahead rfl fun _ between same _ =>
    .builds (choices _) fun value behind kept built => .builds (.expectMark _ _)
      fun _ after sameTypes _ => ?_
  have whole := sameTypes.trans (kept.trans same)
  exact body_reaches statements start after (fun _ _ => rfl) fun span body last reached =>
    closed.caseLabel _ _ span value body (same ▸ built) (whole ▸ reached)

include closed statements in
theorem defaultForm_reaches (state : State) (ahead : state.lexeme? = some (.keyword .kwDefault)) :
    ReachesFrom given state (defaultForm statement) (holds.reached state.typedefs) := by
  refine .location fun start => .advance ahead rfl fun _ between same _ =>
    .builds (.expectMark _ _) fun _ after sameTypes _ => ?_
  have whole := sameTypes.trans same
  exact body_reaches statements start after (fun _ _ => rfl) fun span body last reached =>
    closed.defaultLabel _ _ span body (whole ▸ reached)

include closed statements in
theorem labelForm_reaches (state : State) {label : String} (ahead : state.lexeme? = some (.identifier label))
    (second : state.secondLexeme? = some (.mark .colon)) :
    ReachesFrom given state (labelForm label statement) (holds.reached state.typedefs) := by
  refine .location fun start => .advance ahead rfl fun spelled between same next =>
    .advance (next.trans second) rfl fun _ after sameTypes _ => ?_
  have whole := sameTypes.trans same
  exact body_reaches statements start after (fun _ _ => rfl) fun span body last reached =>
    closed.labelled _ _ span label body spelled (whole ▸ reached)

include closed expressions in
theorem returnForm_reaches (state : State) (ahead : state.lexeme? = some (.keyword .kwReturn)) :
    ReachesFrom given state (returnForm expression) (holds.reached state.typedefs) := by
  refine .location fun start => .advance ahead rfl fun _ between same _ =>
    .builds (optionalBefore_builds (expressions _) _ _) fun value behind kept built =>
      .spanFrom fun span => .pure ⟨?_, nofun⟩
  rw [kept, same]
  exact closed.returnStatement _ span value (same ▸ built)

include closed in
theorem gotoForm_reaches (state : State) (ahead : state.lexeme? = some (.keyword .kwGoto)) :
    ReachesFrom given state gotoForm fun value after => holds.reached state.typedefs value after := by
  refine .location fun start => .advance ahead rfl fun _ between same _ =>
    .builds (.expectIdentifier _) fun label behind kept spelled => .builds (.expectMark _ _)
      fun _ after sameTypes _ => .spanFrom fun span => .pure ⟨?_, nofun⟩
  rw [sameTypes, kept, same]
  exact closed.gotoStatement _ span label spelled

theorem wordForm_reaches (state : State) {word : Keyword} (ahead : state.lexeme? = some (.keyword word))
    (used : (Lexeme.keyword word).isUsed) (context : String) {build : Span → Statement}
    (built : ∀ span, holds.statement state.typedefs (build span) state.typedefs)
    (closes : ∀ span, (build span).isOpen = false) :
    ReachesFrom given state (wordForm context build) (holds.reached state.typedefs) := by
  refine .location fun start => .advance ahead used fun _ between same _ =>
    .builds (.expectMark _ _) fun _ after sameTypes _ => .spanFrom fun span => .pure ⟨?_, ?_⟩
  · rw [sameTypes, same]
    exact built span
  · rw [closes]
    exact nofun

include closed expressions declarations in
theorem declarationOrExpressionForm_reaches (state : State) :
    ReachesFrom given state (declarationOrExpressionForm expression localDeclaration)
      (holds.reached state.typedefs) := by
  refine .get (.ite ?_ ?_)
  · refine (declarations state).mono fun value after declared => ?_
    rcases declared with ⟨span, type, rfl, kept, built⟩ | ⟨span, words, all, rfl, built⟩
    · refine ⟨?_, nofun⟩
      rw [kept]
      exact closed.typeDefinition _ span type built
    · exact ⟨closed.declaration _ _ span words all built, nofun⟩
  · refine .builds (expressions _) fun value between same built => .builds (.expectMark _ _)
      fun _ after sameTypes _ => .spanFrom fun span => .pure ⟨?_, nofun⟩
    rw [sameTypes, same]
    exact closed.expression _ span value built

include closed expressions choices declarations blocks statements in
theorem statementForm_reaches (state : State) :
    ReachesFrom given state (statementForm expression conditional localDeclaration block statement)
      (holds.reached state.typedefs) := by
  refine .get ?_
  split
  · exact .fault _ _
  · exact (blocks state).mono fun value after reached => reached.1
  · exact ifForm_reaches closed expressions statements state
  · exact whileForm_reaches closed expressions statements state
  · exact doWhileForm_reaches closed expressions statements state
  · exact forForm_reaches closed expressions declarations statements state
  · exact switchForm_reaches closed expressions statements state
  · next ahead => exact caseForm_reaches closed choices statements state ahead
  · next ahead => exact defaultForm_reaches closed statements state ahead
  · next ahead => exact wordForm_reaches state ahead rfl _ (closed.breakStatement _) fun _ => rfl
  · next ahead => exact wordForm_reaches state ahead rfl _ (closed.continueStatement _) fun _ => rfl
  · next ahead => exact returnForm_reaches closed expressions state ahead
  · next ahead => exact gotoForm_reaches closed state ahead
  · next ahead =>
    refine .advance ahead rfl fun _ between same _ => .spanFrom fun span => .pure ⟨?_, nofun⟩
    rw [same]
    exact closed.empty _ span
  · exact .fault _ _
  · next ahead =>
    split
    · next second => exact labelForm_reaches closed statements state ahead (beq_iff_eq.mp second)
    · exact declarationOrExpressionForm_reaches closed expressions declarations state
  · exact declarationOrExpressionForm_reaches closed expressions declarations state

end Statements

/-! ## The grammar -/

namespace Grammar

variable {holds : StatementProperty} (closed : holds.Closed given)

include closed

theorem localDeclaration_reaches (budget : Nat) (state : State) :
    ReachesFrom given state (localDeclaration budget) fun statement after =>
      holds.declared given state.typedefs statement after.typedefs := by
  cases budget with
  | zero => exact .exhausted
  | succ budget =>
    have inner (typedefs : List String) := buildsTrees (closed.trees typedefs) budget
    exact localDeclarationForm_reaches (fun types => (inner types).specifiersOf)
      (fun types => (inner types).declarator) (fun types => (inner types).initializer) budget state

theorem statement_reaches (budget : Nat) :
    (∀ state, ReachesFrom given state (statement budget) (holds.reached state.typedefs)) ∧
      ∀ state, ReachesFrom given state (block budget) fun value after =>
        holds.reached state.typedefs value after ∧ value.isBlock ∧ after.typedefs = state.typedefs := by
  induction budget with
  | zero => exact ⟨fun _ => .exhausted, fun _ => .exhausted⟩
  | succ budget ih =>
    have inner (typedefs : List String) := buildsTrees (closed.trees typedefs) budget
    exact ⟨statementForm_reaches closed (fun types => (inner types).expression)
      (fun types => (inner types).conditional) (localDeclaration_reaches closed budget) ih.2 ih.1,
      blockForm_reaches closed ih.1 budget⟩

theorem functionForm_reaches (words : Specifiers) (start : Location) {name : String} {result : CType}
    {parameters : List Parameter} {isVariadic : Bool} (budget : Nat) (state : State)
    (spelled : given (.identifier name))
    (built : (holds.tree state.typedefs).type (.function result parameters isVariadic)) :
    ReachesFrom given state (functionForm words start name result parameters isVariadic budget)
      fun definition after => holds.items state.typedefs [.function definition] after.typedefs := by
  refine ((statement_reaches closed budget).2 state).bind fun body after reached =>
    .spanFrom fun span => .pure ?_
  obtain ⟨⟨bodyHolds, -⟩, isBlock, same⟩ := reached
  rw [same] at bodyHolds ⊢
  exact closed.function _ _ spelled built isBlock bodyHolds

theorem item_reaches (budget : Nat) (state : State) : ReachesFrom given state (item budget) fun items after =>
      holds.items state.typedefs items after.typedefs := by
  have inner (typedefs : List String) := buildsTrees (closed.trees typedefs) budget
  refine .location fun start => .builds (.acceptMark _) fun _ first same _ => .ite
    (.pure (same ▸ closed.nothing _)) (.builds (inner _).specifiersOf fun words second kept baseBuilt =>
      .builds (.acceptMark _) fun _ third sameTypes _ => .ite ?_
        (.builds (inner _).declarator fun declared fourth keptTypes built => .get ?_))
  · rw [same] at baseBuilt
    refine .spanFrom fun span => .pure ?_
    rw [sameTypes, kept, same]
    exact closed.typeItem _ span _ baseBuilt
  have whole : fourth.typedefs = state.typedefs := keptTypes.trans (sameTypes.trans (kept.trans same))
  rw [← keptTypes, whole] at built
  rw [same] at baseBuilt
  split
  · next result parameters isVariadic typed ahead =>
    split
    · exact .fault _ _
    · next name named =>
      have typeHolds := (closed.trees _).type_typeFrom ((closed.trees _).base_type baseBuilt) built
      rw [typed, ← whole] at typeHolds
      have reaches := functionForm_reaches closed words start budget fourth (built.1 name named) typeHolds
      rw [whole] at reaches
      exact reaches.bind fun definition after held => .pure held
  · rw [← whole] at built baseBuilt
    have reaches := initDeclarators_reaches (fun types => (inner types).declarator)
      (fun types => (inner types).initializer) start baseBuilt built budget
    rw [whole] at reaches
    exact reaches.bind fun declarations after declares =>
      .pure (closed.declarations _ _ words declarations declares)

theorem unit_reaches (budget : Nat) (state : State) :
    ReachesFrom given state (unit budget) fun unit after => ∃ groups, unit.items = groups.flatten ∧
      Threaded holds.items state.typedefs groups after.typedefs := by
  have step (state : State) : ReachesFrom given state (itemStep budget) fun taken after =>
      taken.elim (after.typedefs = state.typedefs) fun entry =>
        holds.items state.typedefs entry.1 after.typedefs :=
    .get (.ite (.pure rfl) ((item_reaches closed budget state).bind fun items after held => .pure held))
  exact .location fun start => (ReachesFrom.collectWithin step budget state).bind
    fun groups after threaded => .location fun stop => .pure ⟨groups, rfl, threaded⟩

end Grammar

theorem compilationUnit_reaches {holds : StatementProperty} (closed : holds.Closed given) (state : State) :
    ReachesFrom given state compilationUnit fun unit after =>
      ∃ groups, unit.items = groups.flatten ∧ Threaded holds.items state.typedefs groups after.typedefs :=
  .get (Grammar.unit_reaches closed state.budget state)

end Parser

end InlineMacro
