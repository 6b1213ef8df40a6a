import InlineMacro.Proofs.Parser.Assembly
import InlineMacro.Proofs.Scope.Resolution

/-!
# The names of types while a unit is read

What the parser takes for the name of a type is compared with what the name stands for at that point:
the last declaration in scope says so. The parser looks at declarations only. It does not see that a
parameter of the function that it reads, a constant of an enumeration or the function itself hides a
type, and it keeps a name that a branch declares, where no declaration can stand. For all other names
it is right wherever it stands.
-/

set_option autoImplicit false

namespace InlineMacro

/-! ## What names stand for -/

/-- What a name can stand for as an ordinary identifier: a type, an object or a function that a
declaration declares, a parameter, a constant, a function with its body, or what is declared in place
of a branch. -/
inductive NameKind where
  | type
  | object
  | parameter
  | constant
  | function
  | stray
deriving DecidableEq, Repr

def NameKind.isNoted : NameKind → Bool
  | type | object => true
  | parameter | constant | function | stray => false

abbrev VisibleNames := String → Option NameKind

namespace VisibleNames

def declare (names : VisibleNames) (name : String) (kind : NameKind) : VisibleNames :=
  fun other => if other = name then some kind else names other

def declareAll (names : VisibleNames) (declared : List String) (kind : NameKind) : VisibleNames :=
  fun name => if name ∈ declared then some kind else names name

def behind (names : VisibleNames) (items : List ScopeItem) : VisibleNames :=
  fun name => if ⟨.ordinary, name⟩ ∈ ScopeItem.introduced items then some .constant else names name

def isType (names : VisibleNames) (seeded : List String) (name : String) : Prop :=
  match names name with
  | none => name ∈ seeded
  | some kind => kind = .type

end VisibleNames

def Declaration.nameKind (declaration : Declaration) : NameKind :=
  if declaration.isTypedef then .type else .object

def Declaration.namesInside (declaration : Declaration) (names : VisibleNames) : VisibleNames :=
  (names.behind (declaration.type.items declaration.span)).declare declaration.name
    declaration.nameKind

def Declaration.namesBehind (names : VisibleNames) (declaration : Declaration) : VisibleNames :=
  (declaration.namesInside names).behind (optionalItems Initializer.items declaration.initializer)

def Statement.declaredNames : Statement → List String
  | .declaration _ declarations => declarations.map Declaration.name
  | .ifElse _ _ thenBranch none => thenBranch.declaredNames
  | .ifElse _ _ thenBranch (some elseBranch) => thenBranch.declaredNames ++ elseBranch.declaredNames
  | .whileLoop _ _ body | .doWhile _ body _ | .switch _ _ body => body.declaredNames
  | .caseLabel _ _ statement | .defaultLabel _ statement | .labelled _ _ statement =>
    statement.declaredNames
  | _ => []

def Statement.namesBehind (names : VisibleNames) : Statement → VisibleNames
  | .expression _ value => names.behind (value.items false)
  | .declaration _ declarations => declarations.foldl Declaration.namesBehind names
  | .typeDefinition span type => names.behind (type.items span)
  | .caseLabel _ value statement => statement.namesBehind (names.behind (value.items false))
  | .defaultLabel _ statement | .labelled _ _ statement => statement.namesBehind names
  | .returnStatement _ value => names.behind (optionalItems (Expr.items false) value)
  | statement => names.declareAll statement.declaredNames .stray

def VisibleNames.inFunction (names : VisibleNames) (name : String) (result : CType)
    (parameters : List Parameter) (place : Span) : VisibleNames :=
  (((names.behind (result.items place)).declare name .function).behind
    (Parameter.listItems .parameter parameters)).declareAll (parameters.filterMap Parameter.name)
      .parameter

def Item.namesBehind (names : VisibleNames) : Item → VisibleNames
  | .function definition =>
    (names.behind (definition.result.items definition.span)).declare definition.name .function
  | .declaration declared => declared.namesBehind names
  | .typeDefinition type span => names.behind (type.items span)
  | .verbatim _ _ => names

namespace Parser

/-! ## Names of types -/

def Records (seeded : List String) (names : VisibleNames) (typedefs : List String) : Prop :=
  ∀ name, (∀ kind ∈ names name, kind.isNoted) → (name ∈ typedefs ↔ names.isType seeded name)

namespace Records

variable {seeded typedefs others : List String} {names hidden : VisibleNames}

theorem hide (records : Records seeded names typedefs) (same : ∀ name, (∀ kind ∈ hidden name, kind.isNoted) →
      hidden name = names name ∧ (name ∈ others ↔ name ∈ typedefs)) : Records seeded hidden others := by
  intro name noted
  obtain ⟨sameName, sameType⟩ := same name noted
  rw [sameName] at noted
  rw [sameType, records name noted, VisibleNames.isType, VisibleNames.isType, sameName]

theorem behind (records : Records seeded names typedefs) (items : List ScopeItem) :
    Records seeded (names.behind items) typedefs := by
  refine records.hide fun name noted => ⟨?_, Iff.rfl⟩
  unfold VisibleNames.behind at noted ⊢
  split
  · next isConstant =>
    rw [if_pos isConstant] at noted
    cases noted _ rfl
  · rfl

theorem declareUnnoted (records : Records seeded names typedefs) (name : String) {kind : NameKind}
    (unnoted : kind.isNoted = false) : Records seeded (names.declare name kind) typedefs := by
  refine records.hide fun other noted => ⟨?_, Iff.rfl⟩
  unfold VisibleNames.declare at noted ⊢
  split
  · next same =>
    rw [if_pos same] at noted
    exact absurd (noted _ rfl) (by simp [unnoted])
  · rfl

theorem declareAll (records : Records seeded names typedefs) (declared : List String)
    {kind : NameKind} (unnoted : kind.isNoted = false)
    (same : ∀ name, name ∉ declared → (name ∈ others ↔ name ∈ typedefs)) :
    Records seeded (names.declareAll declared kind) others := by
  refine records.hide fun name noted => ?_
  unfold VisibleNames.declareAll at noted ⊢
  split
  · next member =>
    rw [if_pos member] at noted
    exact absurd (noted _ rfl) (by simp [unnoted])
  · next other => exact ⟨rfl, same name other⟩

end Records

end Parser

theorem Declaration.mem_typesBehind {declaration : Declaration} {typedefs : List String}
    {name : String} : name ∈ declaration.typesBehind typedefs ↔
      (if name = declaration.name then declaration.isTypedef = true else name ∈ typedefs : Prop) := by
  unfold Declaration.typesBehind
  by_cases isType : declaration.isTypedef
  · by_cases known : declaration.name ∈ typedefs <;> by_cases same : name = declaration.name <;>
      simp [isType, known, same]
  · by_cases same : name = declaration.name <;> simp [isType, same]

namespace Parser

namespace Records

variable {seeded typedefs others : List String} {names hidden : VisibleNames}

theorem declaration (records : Records seeded names typedefs) (declaration : Declaration) :
    Records seeded (declaration.namesInside names) (declaration.typesBehind typedefs) := by
  intro name noted
  rw [Declaration.mem_typesBehind]
  unfold Declaration.namesInside VisibleNames.declare at noted
  unfold VisibleNames.isType Declaration.namesInside VisibleNames.declare
  by_cases same : name = declaration.name
  · rw [if_pos same, if_pos same, Declaration.nameKind]
    cases declaration.isTypedef <;> simp
  · rw [if_neg same] at noted ⊢
    rw [if_neg same]
    exact records.behind _ name noted

theorem declarations (records : Records seeded names typedefs) (declarations : List Declaration) :
    Records seeded (declarations.foldl Declaration.namesBehind names)
      (declarations.foldl (fun types declaration => declaration.typesBehind types) typedefs) := by
  induction declarations generalizing names typedefs with
  | nil => exact records
  | cons first rest ih => exact ih ((records.declaration first).behind _)

end Records

/-! ## Statements and items -/

def noted (seeded : List String) : StatementProperty where
  tree _ := anyTree
  statement before statement after :=
    (∀ name, name ∉ statement.declaredNames → (name ∈ after ↔ name ∈ before)) ∧
      ∀ names, Records seeded names before → Records seeded (statement.namesBehind names) after
  items before items after :=
    ∀ names, Records seeded names before → Records seeded (items.foldl Item.namesBehind names) after

variable {given : Lexeme → Prop} {seeded : List String}

variable {words : Specifiers} {before : List String} {declarations : List Declaration}

theorem noted_threaded {base : CType} {after : List String}
    (threaded : Threaded ((noted seeded).declares given words base) before declarations after) :
    after = declarations.foldl (fun types declaration => declaration.typesBehind types) before := by
  induction threaded with
  | nil => rfl
  | cons first _ ih => rw [ih, first.2.2.2.1, List.foldl_cons]

theorem noted_declaresAll {after : List String}
    (declares : (noted seeded).declaresAll given words before declarations after) :
    after = declarations.foldl (fun types declaration => declaration.typesBehind types) before := by
  obtain ⟨-, first, others, middle, rfl, declares, threaded⟩ := declares
  rw [noted_threaded threaded, List.foldl_cons, declares.2.2.2.1]

theorem mem_typesBehind_all {name : String} (other : name ∉ declarations.map Declaration.name) :
    name ∈ declarations.foldl (fun types declaration => declaration.typesBehind types) before ↔
      name ∈ before := by
  induction declarations generalizing before with
  | nil => rfl
  | cons first rest ih =>
    obtain ⟨apart, others⟩ := not_or.mp (mt List.mem_cons.mpr other)
    rw [List.foldl_cons, ih others, Declaration.mem_typesBehind, if_neg apart]

theorem noted_branch {statement : Statement} {after : List String}
    (same : ∀ name, name ∉ statement.declaredNames → (name ∈ after ↔ name ∈ before))
    (behind : ∀ names, statement.namesBehind names = names.declareAll statement.declaredNames .stray) :
    (noted seeded).statement before statement after :=
  ⟨same, fun names records => behind names ▸ records.declareAll _ rfl same⟩

theorem noted_closed (given : Lexeme → Prop) (seeded : List String) : (noted seeded).Closed given where
  trees := anyTree_closed given
  expression _ _ _ _ := ⟨fun _ _ => Iff.rfl, fun _ records => records.behind _⟩
  block _ _ _ _ _ := noted_branch (fun _ _ => Iff.rfl) fun _ => rfl
  declaration types behind span words declarations declares := by
    obtain rfl := noted_declaresAll declares
    exact ⟨fun name other => mem_typesBehind_all other, fun names records =>
      records.declarations declarations⟩
  typeDefinition _ _ _ _ := ⟨fun _ _ => Iff.rfl, fun _ records => records.behind _⟩
  ifThen _ _ _ _ _ _ branch := noted_branch branch.1 fun _ => rfl
  ifElse types middle behind span condition thenBranch elseBranch _ former _ latter := by
    refine noted_branch (fun name other => ?_) fun _ => rfl
    obtain ⟨first, second⟩ := not_or.mp (mt List.mem_append.mpr other)
    exact (latter.1 name second).trans (former.1 name first)
  whileLoop _ _ _ _ _ _ body := noted_branch body.1 fun _ => rfl
  forLoop _ _ _ _ _ _ _ _ _ _ _ _ := noted_branch (fun _ _ => Iff.rfl) fun _ => rfl
  doWhile _ _ _ _ _ body _ := noted_branch body.1 fun _ => rfl
  switch _ _ _ _ _ _ body := noted_branch body.1 fun _ => rfl
  caseLabel _ _ _ _ _ _ labelled := ⟨labelled.1, fun _ records => labelled.2 _ (records.behind _)⟩
  defaultLabel _ _ _ _ labelled := labelled
  breakStatement _ _ := noted_branch (fun _ _ => Iff.rfl) fun _ => rfl
  continueStatement _ _ := noted_branch (fun _ _ => Iff.rfl) fun _ => rfl
  returnStatement _ _ _ _ := ⟨fun _ _ => Iff.rfl, fun _ records => records.behind _⟩
  gotoStatement _ _ _ _ := noted_branch (fun _ _ => Iff.rfl) fun _ => rfl
  labelled _ _ _ _ _ _ labelled := labelled
  empty _ _ := noted_branch (fun _ _ => Iff.rfl) fun _ => rfl
  nothing _ _ records := records
  typeItem _ _ _ _ _ records := records.behind _
  declarations types behind words declarations declares names records := by
    obtain rfl := noted_declaresAll declares
    rw [List.foldl_map]
    exact records.declarations declarations
  function _ _ _ _ _ _ _ records := (records.behind _).declareUnnoted _ rfl

/-! ## Where the parser stands -/

def pause {α : Type} : Parse α := throw .overflow

/-- What the parser stands in front of: an item, a declaration, a declared name behind specifiers and
perhaps other names, an initializer, or a part of the body of a function. -/
inductive Spot where
  | item
  | declaration
  | declarator (words : Specifiers) (base : CType)
  | initializer
  | body

def framesStatement (lexeme : Lexeme) : Bool :=
  [Lexeme.mark .leftBrace, .mark .leftParen, .mark .rightParen, .mark .semicolon, .mark .colon,
    .keyword .kwIf, .keyword .kwElse, .keyword .kwWhile, .keyword .kwDo, .keyword .kwFor,
    .keyword .kwSwitch, .keyword .kwCase, .keyword .kwDefault, .keyword .kwReturn].contains lexeme

/-- Where the parser can stand while it reads a unit, with the names that are in scope there. In the
body of a function stand expressions, declarations and statements, with words, marks and labels in
between; what has been read of an open block or loop counts, and what is behind its end does not. -/
inductive Stands (start : State) : Spot → VisibleNames → State → Prop where
  | start : Stands start .item (fun _ => none) start
  | item {names : VisibleNames} {state after : State} {items : List Item} (budget : Nat)
    (stands : Stands start .item names state)
    (reads : (Grammar.item budget).run state = .ok items after) :
    Stands start .item (items.foldl Item.namesBehind names) after
  | itemDeclaration {names : VisibleNames} {state : State} (stands : Stands start .item names state) :
    Stands start .declaration names state
  | localDeclaration {names : VisibleNames} {state : State}
    (stands : Stands start .body names state) : Stands start .declaration names state
  | specifiers {names : VisibleNames} {state after : State} {words : Specifiers} (budget : Nat)
    (place : Span) (stands : Stands start .declaration names state)
    (reads : (Grammar.specifiersOf budget).run state = .ok words after) :
    Stands start (.declarator words words.base) (names.behind (words.base.items place)) after
  | declarator {names : VisibleNames} {state between after : State} {words : Specifiers}
    {base : CType} {declared : Declarator} {name : String} {failure : Failure} (budget : Nat)
    (place : Location) (span : Span) (stands : Stands start (.declarator words base) names state)
    (reads : (Grammar.declarator budget).run state = .ok declared between)
    (named : declared.name = some name)
    (pauses : (initDeclarator words place declared.name (declared.typeFrom base) pause).run between =
      .error failure after) :
    Stands start .initializer
      (Declaration.namesInside
        ⟨name, declared.typeFrom base, words.storage, words.isInline, none, span⟩ names) after
  | comma {names : VisibleNames} {state between behind after : State} {words : Specifiers}
    {base : CType} {declared : Declarator} {declaration : Declaration} (budget : Nat)
    (place : Location) (stands : Stands start (.declarator words base) names state)
    (reads : (Grammar.declarator budget).run state = .ok declared between)
    (declares : (initDeclarator words place declared.name (declared.typeFrom base)
      (Grammar.initializer budget)).run between = .ok declaration behind)
    (accepts : (acceptMark .comma).run behind = .ok true after) :
    Stands start (.declarator words words.base.withoutBodies) (declaration.namesBehind names) after
  | function {names : VisibleNames} {state between after : State} {words : Specifiers}
    {declared : Declarator} {name : String} {result : CType} {parameters : List Parameter}
    {isVariadic : Bool} (budget : Nat) (place : Span) (stands : Stands start .item names state)
    (specified : (Grammar.specifiersOf budget).run state = .ok words between)
    (reads : (Grammar.declarator budget).run between = .ok declared after)
    (named : declared.name = some name)
    (typed : declared.typeFrom words.base = .function result parameters isVariadic)
    (opens : after.isAtMark .leftBrace) :
    Stands start .body (names.inFunction name result parameters place) after
  | frame {names : VisibleNames} {state after : State} {found : Option Token} {lexeme : Lexeme}
    (stands : Stands start .body names state) (ahead : state.lexeme? = some lexeme)
    (frames : framesStatement lexeme) (reads : advance.run state = .ok found after) :
    Stands start .body names after
  | label {names : VisibleNames} {state after : State} {found : Option Token} {label : String}
    (stands : Stands start .body names state) (ahead : state.lexeme? = some (.identifier label))
    (second : state.secondLexeme? = some (.mark .colon))
    (reads : advance.run state = .ok found after) : Stands start .body names after
  | expression {names : VisibleNames} {state after : State} {value : Expr} (budget : Nat)
    (stands : Stands start .body names state)
    (reads : (Grammar.expression budget).run state = .ok value after) :
    Stands start .body (names.behind (value.items false)) after
  | conditional {names : VisibleNames} {state after : State} {value : Expr} (budget : Nat)
    (stands : Stands start .body names state)
    (reads : (Grammar.conditional budget).run state = .ok value after) :
    Stands start .body (names.behind (value.items false)) after
  | loopInit {names : VisibleNames} {state after : State} {statement : Statement} (budget : Nat)
    (stands : Stands start .body names state)
    (reads : (Grammar.localDeclaration budget).run state = .ok statement after) :
    Stands start .body (statement.namesBehind names) after
  | statement {names : VisibleNames} {state after : State} {statement : Statement} (budget : Nat)
    (stands : Stands start .body names state)
    (reads : (Grammar.statement budget).run state = .ok statement after) :
    Stands start .body (statement.namesBehind names) after

/-- The productions below declarations: no declaration and no statement stands in what they read. -/
inductive Part where
  | expression
  | assignment
  | conditional
  | binary (level : Nat)
  | cast
  | unary
  | suffixed
  | suffixes (operand : Expr)
  | primary
  | initializer
  | initializerItem
  | typeName
  | specifiers
  | bodied (kind : BodiedType)
  | declarator
  | parameters

def Part.read (budget : Nat) : Part → Parse Unit
  | expression => discard (Grammar.expression budget)
  | assignment => discard (Grammar.assignment budget)
  | conditional => discard (Grammar.conditional budget)
  | binary level => discard (Grammar.binary budget level)
  | cast => discard (Grammar.cast budget)
  | unary => discard (Grammar.unary budget)
  | suffixed => discard (Grammar.suffixed budget)
  | suffixes operand => discard (Grammar.suffixes budget operand)
  | primary => discard (Grammar.primary budget)
  | initializer => discard (Grammar.initializer budget)
  | initializerItem => discard (Grammar.initializerItem budget)
  | typeName => discard (Grammar.typeName budget)
  | specifiers => discard (Grammar.specifiersOf budget)
  | bodied kind => discard (Grammar.bodied budget kind)
  | declarator => discard (Grammar.declarator budget)
  | parameters => discard (Grammar.parameters budget)

theorem Part.read_keeps (part : Part) (budget : Nat) (state : State) :
    match (part.read budget).run state with
    | .ok _ after | .error _ after => after.typedefs = state.typedefs := by
  have keeps {α : Type} {parser : Parse α} {post : α → Prop}
      (builds : Builds (fun _ => True) state.typedefs parser post) :
      match (discard parser).run state with
      | .ok _ after | .error _ after => after.typedefs = state.typedefs := by
    have built := builds state rfl fun _ _ => trivial
    change match EStateM.map (fun _ => ()) parser state with
      | .ok _ after | .error _ after => after.typedefs = state.typedefs
    unfold EStateM.map
    unfold EStateM.run at built
    split at built
    · next value after reads =>
      rw [reads]
      exact built.2.1
    · next failure after reads =>
      rw [reads]
      exact built
  have all := Grammar.buildsTrees (anyTree_closed (fun _ => True) state.typedefs) budget
  cases part with
  | expression => exact keeps all.expression
  | assignment => exact keeps all.assignment
  | conditional => exact keeps all.conditional
  | binary level => exact keeps (all.binary level)
  | cast => exact keeps all.cast
  | unary => exact keeps all.unary
  | suffixed => exact keeps all.suffixed
  | suffixes operand => exact keeps (all.suffixes operand trivial)
  | primary => exact keeps all.primary
  | initializer => exact keeps all.initializer
  | initializerItem => exact keeps all.initializerItem
  | typeName => exact keeps all.typeName
  | specifiers => exact keeps all.specifiersOf
  | bodied kind => exact keeps (all.bodied kind)
  | declarator => exact keeps all.declarator
  | parameters => exact keeps all.parameters

variable {after state : State} {α : Type}

theorem typedefs_of_builds {parser : Parse α} {value : α}
    {post : α → Prop} (builds : ∀ typedefs, Builds (fun _ => True) typedefs parser post)
    (reads : parser.run state = .ok value after) : after.typedefs = state.typedefs ∧ post value := by
  have built := builds state.typedefs state rfl fun _ _ => trivial
  rw [reads] at built
  exact built.2

theorem typedefs_of_failure {parser : Parse α} {failure : Failure}
    (fails : parser.run state = .error failure after)
    (builds : Builds (fun _ => True) state.typedefs parser fun _ => True) :
    after.typedefs = state.typedefs := by
  have built := builds state rfl fun _ _ => trivial
  rw [fails] at built
  exact built

theorem typedefs_of_advance {found : Option Token}
    (reads : advance.run state = .ok found after) : after.typedefs = state.typedefs := by
  obtain ⟨tokens, typedefs, fileEnd⟩ := state
  cases tokens <;> cases reads <;> rfl

theorem pause_builds (typedefs : List String) :
    Builds (fun _ => True) typedefs (pause : Parse α) fun _ => False := .failure _

theorem typedefs_of_pause {start : Location} {name : String} {type : CType} {failure : Failure} (span : Span)
    (pauses : (initDeclarator words start (some name) type pause).run state = .error failure after) :
    after.typedefs = Declaration.typesBehind
      ⟨name, type, words.storage, words.isInline, none, span⟩ state.typedefs := by
  have rest (between : State) (fails : (do
      let value ← if ← acceptMark .equal then some <$> (pause : Parse Initializer) else pure none
      return {
        name := name
        type := type
        storage := words.storage
        isInline := words.isInline
        initializer := value
        span := ← spanFrom start : Declaration } : Parse Declaration).run between =
          .error failure after) : after.typedefs = between.typedefs :=
    typedefs_of_failure fails (.bind (.acceptMark _) fun _ _ => .ite
      (.bind (pause_builds _).present fun _ _ => .spanFrom fun _ => .pure trivial)
      (.spanFrom fun _ => .pure trivial))
  dsimp only [initDeclarator] at pauses
  split at pauses
  · next isType =>
    rw [rest _ pauses]
    simp only [Declaration.typesBehind, Declaration.isTypedef, isType, beq_self_eq_true, if_true,
      State.isTypedef]
    exact apply_ite State.typedefs _ _ _
  · next notType =>
    rw [rest _ pauses]
    simp [Declaration.typesBehind, Declaration.isTypedef, notType]

theorem Stands.records {start : State} {spot : Spot} {names : VisibleNames}
    (stands : Stands start spot names state) : Records start.typedefs names state.typedefs := by
  have parts (budget : Nat) (typedefs : List String) :=
    Grammar.buildsTrees (anyTree_closed (fun _ => True) typedefs) budget
  have closed := noted_closed (fun _ => True) start.typedefs
  induction stands with
  | start => exact fun name _ => Iff.rfl
  | item budget _ reads ih =>
    exact (Grammar.item_reaches closed budget _ (fun _ _ => trivial) _ _ reads).2 _ ih
  | itemDeclaration _ ih | localDeclaration _ ih => exact ih
  | specifiers budget place _ reads ih =>
    rw [(typedefs_of_builds (fun typedefs => (parts budget typedefs).specifiersOf) reads).1]
    exact ih.behind _
  | declarator budget place span _ reads named pauses ih =>
    rw [named] at pauses
    rw [typedefs_of_pause span pauses,
      (typedefs_of_builds (fun typedefs => (parts budget typedefs).declarator) reads).1]
    exact ih.declaration _
  | @comma names state between behind after words base declared declaration budget place _ reads
      declares accepts ih =>
    obtain ⟨kept, built⟩ :=
      typedefs_of_builds (fun typedefs => (parts budget typedefs).declarator) reads
    have declared : (noted start.typedefs).declares (fun _ => True) words base between.typedefs
        declaration behind.typedefs :=
      (initDeclarator_reaches (fun typedefs => (parts budget typedefs).initializer) words place base
        built (fun _ _ => trivial) _ _ declares).2
    rw [(typedefs_of_builds (fun _ => Builds.acceptMark _) accepts).1, declared.2.2.2.1, kept]
    exact (ih.declaration _).behind _
  | function budget place _ specified reads _ _ _ ih =>
    rw [(typedefs_of_builds (fun typedefs => (parts budget typedefs).declarator) reads).1,
      (typedefs_of_builds (fun typedefs => (parts budget typedefs).specifiersOf) specified).1]
    exact (((ih.behind _).declareUnnoted _ rfl).behind _).declareAll _ rfl fun _ _ => Iff.rfl
  | frame _ _ _ reads ih | label _ _ _ reads ih => rwa [typedefs_of_advance reads]
  | expression budget _ reads ih =>
    rw [(typedefs_of_builds (fun typedefs => (parts budget typedefs).expression) reads).1]
    exact ih.behind _
  | conditional budget _ reads ih =>
    rw [(typedefs_of_builds (fun typedefs => (parts budget typedefs).conditional) reads).1]
    exact ih.behind _
  | loopInit budget _ reads ih =>
    have declared :=
      (Grammar.localDeclaration_reaches closed budget _ (fun _ _ => trivial) _ _ reads).2
    rcases declared with ⟨span, type, rfl, same, -⟩ | ⟨span, words, declarations, rfl, declares⟩
    · exact same ▸ ih.behind _
    · exact (closed.declaration _ _ span words declarations declares).2 _ ih
  | statement budget _ reads ih =>
    exact ((Grammar.statement_reaches closed budget).1 _ (fun _ _ => trivial) _ _ reads).2.1.2 _ ih

/-- Wherever the parser stands, a name is one of a type exactly if it stands for a type there, unless
it stands for something that the parser does not note. The names of types are seeded at the start, and
no part of a declaration or statement changes them, however it ends. -/
theorem isTypedef_iff {tokens : List Token} {typedefs : List String} {spot : Spot}
    {names : VisibleNames} {state : State}
    (stands : Stands (.ofTokens tokens typedefs) spot names state) :
    (∀ name, (∀ kind ∈ names name, kind.isNoted) →
      (state.isTypedef name ↔ names.isType (builtinTypedefs ++ typedefs) name)) ∧
    ∀ (part : Part) (budget : Nat), match (part.read budget).run state with
      | .ok _ after | .error _ after => ∀ name, after.isTypedef name = state.isTypedef name := by
  refine ⟨fun name noted => ?_, fun part budget => ?_⟩
  · rw [State.isTypedef, List.contains_iff_mem, stands.records name noted]
    unfold VisibleNames.isType
    split
    · simp [State.ofTokens]
    · rfl
  · have kept := part.read_keeps budget state
    split
    · next after reads =>
      rw [reads] at kept
      intro name
      rw [State.isTypedef, State.isTypedef, kept]
    · next after reads =>
      rw [reads] at kept
      intro name
      rw [State.isTypedef, State.isTypedef, kept]

/-- A declared type, and a seeded one that an object hides. -/
theorem isTypedef_iff_behind_items :
    let token (kind : Lexeme) : Token := ⟨kind, .point .synthetic⟩
    let tokens := [token (.keyword .kwTypedef), token (.keyword .kwInt), token (.identifier "T"),
      token (.mark .semicolon), token (.keyword .kwInt), token (.identifier "U"),
      token (.mark .semicolon), token .endOfFile]
    ∃ names state, Stands (.ofTokens tokens ["U"]) .item names state ∧
      names "T" = some .type ∧ names "U" = some .object ∧
      state.isTypedef "T" ∧ ¬ state.isTypedef "U" := by
  intro token tokens
  have first : (Grammar.item 20).run (.ofTokens tokens ["U"]) =
      .ok [.declaration ⟨"T", .basic .int, some .typeAlias, false, none, .point .synthetic⟩]
        ⟨tokens.drop 4, ["T", "__builtin_va_list", "U"], .synthetic⟩ := rfl
  have second : (Grammar.item 20).run ⟨tokens.drop 4, ["T", "__builtin_va_list", "U"], .synthetic⟩ =
      .ok [.declaration ⟨"U", .basic .int, none, false, none, .point .synthetic⟩]
        ⟨tokens.drop 7, ["T", "__builtin_va_list"], .synthetic⟩ := rfl
  have stands := Stands.item 20 (.item 20 .start first) second
  have isType := (isTypedef_iff stands).1
  refine ⟨_, _, stands, rfl, rfl, ?_, ?_⟩
  · exact (isType "T" (by decide)).mpr rfl
  · exact fun isHidden => by cases (isType "U" (by decide)).mp isHidden

/-- A parameter does not hide a type in the body of its function. -/
theorem isTypedef_of_parameter :
    let token (kind : Lexeme) : Token := ⟨kind, .point .synthetic⟩
    let tokens := [token (.keyword .kwTypedef), token (.keyword .kwInt), token (.identifier "T"),
      token (.mark .semicolon), token (.keyword .kwInt), token (.identifier "f"),
      token (.mark .leftParen), token (.keyword .kwInt), token (.identifier "T"),
      token (.mark .rightParen), token (.mark .leftBrace)]
    ∃ names state, Stands (.ofTokens tokens) .body names state ∧
      names "T" = some .parameter ∧ state.isTypedef "T" := by
  intro token tokens
  have first : (Grammar.item 20).run (.ofTokens tokens) =
      .ok [.declaration ⟨"T", .basic .int, some .typeAlias, false, none, .point .synthetic⟩]
        ⟨tokens.drop 4, ["T", "__builtin_va_list"], .synthetic⟩ := rfl
  have specified : (Grammar.specifiersOf 20).run ⟨tokens.drop 4, ["T", "__builtin_va_list"], .synthetic⟩ =
      .ok ⟨none, false, .basic .int⟩ ⟨tokens.drop 5, ["T", "__builtin_va_list"], .synthetic⟩ := rfl
  have declared : (Grammar.declarator 20).run ⟨tokens.drop 5, ["T", "__builtin_va_list"], .synthetic⟩ =
      .ok ⟨some "f", [.function [⟨some "T", .basic .int, .point .synthetic⟩] false]⟩
        ⟨tokens.drop 10, ["T", "__builtin_va_list"], .synthetic⟩ := rfl
  exact ⟨_, _, .function 20 (.point .synthetic) (.item 20 .start first) specified declared rfl rfl rfl,
    rfl, rfl⟩

end Parser

end InlineMacro
