import InlineMacro.Proofs.Parser.BuiltStatements
import InlineMacro.Proofs.Parser.Recognition

/-!
# Phrases of statements

The grammar of declarations, statements and units as relations between trees and the lexemes that they
can be written with. What stands in front of a phrase tells which names are those of types, and the
phrase tells which are so behind it. What a phrase starts with tells which production reads it: no
statement starts as another form does, and a name in front of a colon is a label.
-/

set_option autoImplicit false

namespace InlineMacro.Parser

open Lexeme (identifier keyword mark)

/-! ## Declarations -/

/-- Lexemes give a declared name its initial value, if it has one. -/
inductive GivesValue (types : List String) : Option Initializer → List Lexeme → Prop where
  | absent : GivesValue types none []
  | present {value : Initializer} {lexemes : List Lexeme} : Derives types (.initializer value) lexemes →
    GivesValue types (some value) (mark .equal :: lexemes)

/-- Lexemes declare a name with specifiers of which the type is given. The name is that of a type, or
hides one, from its initial value on. -/
inductive Declares (words : Specifiers) (base : CType) (types : List String) :
    Declaration → List Lexeme → Prop where
  | intro {declaration : Declaration} {declared : Declarator} {lexemes more : List Lexeme} :
    Derives types (.declarator declared) lexemes → declared.name = some declaration.name →
    declared.typeFrom base = declaration.type → words.storage = declaration.storage →
    words.isInline = declaration.isInline →
    GivesValue (declaration.typesBehind types) declaration.initializer more →
    Declares words base types declaration (lexemes ++ more)

/-- Lexemes declare names, each behind a comma. -/
inductive DeclaresMore (words : Specifiers) (base : CType) :
    List String → List Declaration → List Lexeme → List String → Prop where
  | nil (types : List String) : DeclaresMore words base types [] [] types
  | cons {types behind : List String} {first : Declaration} {others : List Declaration}
    {lexemes more : List Lexeme} : Declares words base types first lexemes →
    DeclaresMore words base (first.typesBehind types) others more behind →
    DeclaresMore words base types (first :: others) (mark .comma :: (lexemes ++ more)) behind

/-- Lexemes are a declaration of names, of which only the first is declared with the body of the type. -/
inductive DeclaresAll (types : List String) :
    List Declaration → List Lexeme → List String → Prop where
  | intro {words : Specifiers} {first : Declaration} {others : List Declaration}
    {lexemes more last : List Lexeme} {behind : List String} : Derives types (.specifiers words) lexemes →
    Declares words words.base types first more →
    DeclaresMore words words.base.withoutBodies (first.typesBehind types) others last behind →
    DeclaresAll types (first :: others) (lexemes ++ (more ++ (last ++ [mark .semicolon]))) behind

/-- Lexemes are a declaration in a block, of names or of nothing but a type. -/
inductive DeclaresLocally (types : List String) : Statement → List Lexeme → List String → Prop where
  | declaration {declarations : List Declaration} {lexemes : List Lexeme} {behind : List String}
    (span : Span) : DeclaresAll types declarations lexemes behind →
    DeclaresLocally types (.declaration span declarations) lexemes behind
  | typeDefinition {words : Specifiers} {lexemes : List Lexeme} (span : Span) :
    Derives types (.specifiers words) lexemes →
    DeclaresLocally types (.typeDefinition span words.base) (lexemes ++ [mark .semicolon]) types

/-! ## Statements -/

/-- Lexemes are an expression that may be missing. -/
inductive Optionally (types : List String) : Option Expr → List Lexeme → Prop where
  | absent : Optionally types none []
  | present {value : Expr} {lexemes : List Lexeme} : Derives types (.expr .expression value) lexemes →
    Optionally types (some value) lexemes

/-- Lexemes are what the head of a loop starts with, and its semicolon. -/
inductive OpensLoop (types : List String) : Option Statement → List Lexeme → List String → Prop where
  | absent : OpensLoop types none [mark .semicolon] types
  | expression {value : Expr} {lexemes : List Lexeme} (span : Span) :
    Derives types (.expr .expression value) lexemes →
    OpensLoop types (some (.expression span value)) (lexemes ++ [mark .semicolon]) types
  | declaration {statement : Statement} {lexemes : List Lexeme} {behind : List String} :
    DeclaresLocally types statement lexemes behind →
    OpensLoop types (some statement) lexemes behind

/-- A statement, or statements one behind the other. -/
inductive StatementPhrase where
  | one (statement : Statement)
  | several (statements : List Statement)

def enclosed (lexemes : List Lexeme) : List Lexeme := mark .leftParen :: (lexemes ++ [mark .rightParen])

/-- Lexemes are a statement or several, given the names of types in front and those behind. -/
inductive Forms : List String → StatementPhrase → List Lexeme → List String → Prop where
  | expression {types : List String} {value : Expr} {lexemes : List Lexeme} (span : Span) :
    Derives types (.expr .expression value) lexemes →
    Forms types (.one (.expression span value)) (lexemes ++ [mark .semicolon]) types
  | declaration {types behind : List String} {statement : Statement} {lexemes : List Lexeme} :
    DeclaresLocally types statement lexemes behind → Forms types (.one statement) lexemes behind
  | block {types behind : List String} {statements : List Statement} {lexemes : List Lexeme}
    (span : Span) : Forms types (.several statements) lexemes behind →
    Forms types (.one (.block span statements))
      (mark .leftBrace :: (lexemes ++ [mark .rightBrace])) types
  | ifThen {types behind : List String} {condition : Expr} {thenBranch : Statement}
    {lexemes more : List Lexeme} (span : Span) : Derives types (.expr .expression condition) lexemes →
    Forms types (.one thenBranch) more behind →
    Forms types (.one (.ifElse span condition thenBranch none))
      (keyword .kwIf :: (enclosed lexemes ++ more)) behind
  | ifElse {types middle behind : List String} {condition : Expr} {thenBranch elseBranch : Statement}
    {lexemes more last : List Lexeme} (span : Span) :
    Derives types (.expr .expression condition) lexemes → Forms types (.one thenBranch) more middle →
    thenBranch.isOpen = false → Forms middle (.one elseBranch) last behind →
    Forms types (.one (.ifElse span condition thenBranch (some elseBranch)))
      (keyword .kwIf :: (enclosed lexemes ++ (more ++ keyword .kwElse :: last))) behind
  | whileLoop {types behind : List String} {condition : Expr} {body : Statement}
    {lexemes more : List Lexeme} (span : Span) : Derives types (.expr .expression condition) lexemes →
    Forms types (.one body) more behind →
    Forms types (.one (.whileLoop span condition body))
      (keyword .kwWhile :: (enclosed lexemes ++ more)) behind
  | forLoop {types middle behind : List String} {init : Option Statement}
    {condition update : Option Expr} {body : Statement} {lexemes tested updated more : List Lexeme}
    (span : Span) : OpensLoop types init lexemes middle → Optionally middle condition tested →
    Optionally middle update updated → Forms middle (.one body) more behind →
    Forms types (.one (.forLoop span init condition update body))
      (keyword .kwFor :: mark .leftParen ::
        (lexemes ++ (tested ++ mark .semicolon :: (updated ++ mark .rightParen :: more)))) types
  | doWhile {types behind : List String} {body : Statement} {condition : Expr}
    {lexemes more : List Lexeme} (span : Span) : Forms types (.one body) lexemes behind →
    Derives behind (.expr .expression condition) more →
    Forms types (.one (.doWhile span body condition))
      (keyword .kwDo :: (lexemes ++ keyword .kwWhile :: (enclosed more ++ [mark .semicolon]))) behind
  | switch {types behind : List String} {subject : Expr} {body : Statement}
    {lexemes more : List Lexeme} (span : Span) : Derives types (.expr .expression subject) lexemes →
    Forms types (.one body) more behind →
    Forms types (.one (.switch span subject body))
      (keyword .kwSwitch :: (enclosed lexemes ++ more)) behind
  | caseLabel {types behind : List String} {value : Expr} {statement : Statement}
    {lexemes more : List Lexeme} (span : Span) : Derives types (.expr .conditional value) lexemes →
    Forms types (.one statement) more behind →
    Forms types (.one (.caseLabel span value statement))
      (keyword .kwCase :: (lexemes ++ mark .colon :: more)) behind
  | defaultLabel {types behind : List String} {statement : Statement} {more : List Lexeme}
    (span : Span) : Forms types (.one statement) more behind →
    Forms types (.one (.defaultLabel span statement))
      (keyword .kwDefault :: mark .colon :: more) behind
  | breakStatement {types : List String} (span : Span) :
    Forms types (.one (.breakStatement span)) [keyword .kwBreak, mark .semicolon] types
  | continueStatement {types : List String} (span : Span) :
    Forms types (.one (.continueStatement span)) [keyword .kwContinue, mark .semicolon] types
  | returnStatement {types : List String} {value : Option Expr} {lexemes : List Lexeme}
    (span : Span) : Optionally types value lexemes →
    Forms types (.one (.returnStatement span value))
      (keyword .kwReturn :: (lexemes ++ [mark .semicolon])) types
  | gotoStatement {types : List String} (span : Span) (label : String) :
    Forms types (.one (.gotoStatement span label))
      [keyword .kwGoto, identifier label, mark .semicolon] types
  | labelled {types behind : List String} {statement : Statement} {more : List Lexeme} (span : Span)
    (label : String) : Forms types (.one statement) more behind →
    Forms types (.one (.labelled span label statement)) (identifier label :: mark .colon :: more) behind
  | empty {types : List String} (span : Span) :
    Forms types (.one (.empty span)) [mark .semicolon] types
  | nil (types : List String) : Forms types (.several []) [] types
  | cons {types middle behind : List String} {statement : Statement} {statements : List Statement}
    {lexemes more : List Lexeme} : Forms types (.one statement) lexemes middle →
    Forms middle (.several statements) more behind →
    Forms types (.several (statement :: statements)) (lexemes ++ more) behind

/-! ## Units -/

/-- Lexemes are the header of a function. -/
inductive Heads (types : List String) (definition : Function) : List Lexeme → Prop where
  | intro {words : Specifiers} {declared : Declarator} {lexemes more : List Lexeme} :
    Derives types (.specifiers words) lexemes → Derives types (.declarator declared) more →
    declared.name = some definition.name → declared.typeFrom words.base = definition.type →
    words.storage = definition.storage → words.isInline = definition.isInline →
    Heads types definition (lexemes ++ more)

/-- Lexemes are the items of a unit, given the names of types in front and those behind. -/
inductive FormsItems : List String → List Item → List Lexeme → List String → Prop where
  | nil (types : List String) : FormsItems types [] [] types
  | typeDefinition {types behind : List String} {words : Specifiers} {items : List Item}
    {lexemes more : List Lexeme} (span : Span) : Derives types (.specifiers words) lexemes →
    FormsItems types items more behind →
    FormsItems types (.typeDefinition words.base span :: items)
      (lexemes ++ mark .semicolon :: more) behind
  | declarations {types middle behind : List String} {declarations : List Declaration}
    {items : List Item} {lexemes more : List Lexeme} : DeclaresAll types declarations lexemes middle →
    FormsItems middle items more behind →
    FormsItems types (declarations.map .declaration ++ items) (lexemes ++ more) behind
  | function {types behind : List String} {definition : Function} {items : List Item}
    {lexemes middle more : List Lexeme} : Heads types definition lexemes → definition.body.isBlock →
    Forms types (.one definition.body) middle types → FormsItems types items more behind →
    FormsItems types (.function definition :: items) (lexemes ++ (middle ++ more)) behind

/-! ## What phrases start with -/

def opensDeclaration (types : List String) : Lexeme → Bool
  | .keyword word =>
    [Keyword.kwTypedef, .kwExtern, .kwStatic, .kwAuto, .kwRegister, .kwInline].contains word ||
      opensType types (keyword word)
  | .identifier name => types.contains name
  | _ => false

def tellsForm : Lexeme → Bool
  | .mark sign => sign == .leftBrace || sign == .semicolon
  | .keyword word => [Keyword.kwIf, .kwWhile, .kwDo, .kwFor, .kwSwitch, .kwCase, .kwDefault, .kwBreak,
      .kwContinue, .kwReturn, .kwGoto, .kwAsm].contains word
  | _ => false

def endsStatements (kind : Lexeme) : Bool :=
  kind == mark .rightBrace || kind == keyword .kwElse || kind == .endOfFile

variable {types behind : List String} {lexemes more : List Lexeme} {kind : Lexeme}

theorem tellsForm_of_opensExpr (opens : opensExpr types kind) : tellsForm kind = false := by
  cases kind with
  | keyword word => cases word <;> first | rfl | cases opens
  | mark sign => cases sign <;> first | rfl | cases opens
  | _ => rfl

theorem tellsForm_of_opensDeclaration (opens : opensDeclaration types kind) : tellsForm kind = false := by
  cases kind with
  | keyword word => cases word <;> first | rfl | cases opens
  | mark => cases opens
  | _ => rfl

theorem endsStatements_of_opensExpr (opens : opensExpr types kind) : endsStatements kind = false := by
  cases kind with
  | keyword word => cases word <;> first | rfl | cases opens
  | mark sign => cases sign <;> first | rfl | cases opens
  | endOfFile => cases opens
  | _ => rfl

theorem endsStatements_of_opensDeclaration (opens : opensDeclaration types kind) :
    endsStatements kind = false := by
  cases kind with
  | keyword word => cases word <;> first | rfl | cases opens
  | mark | endOfFile => cases opens
  | _ => rfl

theorem opensDeclaration_of_addKeyword? {read next : SpecifierWords} {word : Keyword}
    (adds : read.addKeyword? word = some next) : opensDeclaration types (keyword word) := by
  cases word <;> first | rfl | cases adds

theorem opensDeclaration_of_bodied {word : Keyword} {bodied : BodiedType}
    (isBodied : bodiedTypeOfKeyword? word = some bodied) : opensDeclaration types (keyword word) := by
  cases word <;> first | rfl | cases isBodied

def StartsDeclaration (types : List String) (lexemes : List Lexeme) : Prop :=
  ∃ first others, lexemes = first :: others ∧ opensDeclaration types first ∧
    ∀ name, first = .identifier name → others.head? ≠ some (.mark .colon)

theorem StartsDeclaration.append (starts : StartsDeclaration types lexemes)
    (noColon : more.head? ≠ some (mark .colon)) : StartsDeclaration types (lexemes ++ more) := by
  obtain ⟨first, others, rfl, opens, second⟩ := starts
  refine ⟨first, others ++ more, rfl, opens, fun name isName => ?_⟩
  cases others with
  | nil => exact noColon
  | cons => exact second name isName

theorem Derives.startsDeclaration {words : Specifiers}
    (derives : Derives types (.specifiers words) lexemes) : StartsDeclaration types lexemes := by
  cases derives with
  | specifiers read hasType _ =>
    cases read with
    | noWords => cases hasType
    | word _ adds =>
      exact ⟨_, _, rfl, opensDeclaration_of_addKeyword? adds, fun _ isName => by cases isName⟩
    | bodiedWord isBodied =>
      exact ⟨_, _, rfl, opensDeclaration_of_bodied isBodied,
        fun _ isName => by cases isName⟩
    | typedefName _ member further =>
      refine ⟨_, _, rfl, List.contains_iff_mem.mpr member, fun name _ => ?_⟩
      rcases further.startsWords with ⟨rfl, -⟩ | ⟨first, others, rfl, opens⟩
      · nofun
      · exact fun same => opens.ne_mark _ (Option.some.inj same)

theorem Derives.startsNamed {declared : Declarator} (derives : Derives types (.declarator declared) lexemes)
    (named : declared.name ≠ none) : ∃ kind, lexemes.head? = some kind ∧ OpensDeclarator kind := by
  refine derives.opensDeclarator.resolve_left ?_
  rintro rfl
  rw [derives.declarator_nil] at named
  exact named rfl

theorem OpensDeclarator.ne_mark {sign : Mark} (opens : OpensDeclarator kind)
    (other : sign = .colon ∨ sign = .semicolon) : kind ≠ mark sign := by
  rcases other with rfl | rfl <;> rcases opens with rfl | ⟨name, rfl⟩ | rfl | rfl <;> nofun

theorem DeclaresAll.startsDeclaration {declarations : List Declaration}
    (declares : DeclaresAll types declarations lexemes behind) : StartsDeclaration types lexemes := by
  cases declares with
  | intro given declares _ =>
    cases declares with
    | intro declared named =>
      obtain ⟨kind, head, opens⟩ := declared.startsNamed (by rw [named]; nofun)
      refine given.startsDeclaration.append ?_
      rw [List.append_assoc, List.head?_append, head]
      exact fun same => opens.ne_mark (.inl rfl) (Option.some.inj same)

variable {statement : Statement}

theorem DeclaresLocally.startsDeclaration
    (declares : DeclaresLocally types statement lexemes behind) : StartsDeclaration types lexemes := by
  cases declares with
  | declaration _ declares => exact declares.startsDeclaration
  | typeDefinition _ given => exact given.startsDeclaration.append nofun

theorem Heads.startsDeclaration {definition : Function} (heads : Heads types definition lexemes) :
    StartsDeclaration types lexemes := by
  cases heads with
  | intro given derives named =>
    obtain ⟨kind, head, opens⟩ := derives.startsNamed (by rw [named]; nofun)
    refine given.startsDeclaration.append ?_
    rw [head]
    exact fun same => opens.ne_mark (.inl rfl) (Option.some.inj same)

theorem DeclaresLocally.two_le_length
    (declares : DeclaresLocally types statement lexemes behind) : 2 ≤ lexemes.length := by
  have some {words : Specifiers} {front : List Lexeme} (given : Derives types (.specifiers words) front) :
      1 ≤ front.length := by
    obtain ⟨first, more, rfl, -⟩ := given.startsSpecifiers
    exact Nat.le_add_left 1 _
  cases declares with
  | declaration _ declares =>
    cases declares with
    | intro given _ _ =>
      have least := some given
      simp only [List.length_append, List.length_singleton]
      omega
  | typeDefinition _ given =>
    have least := some given
    simp only [List.length_append, List.length_singleton]
    omega

theorem Forms.starts (forms : Forms types (.one statement) lexemes behind) :
    ∃ kind, lexemes.head? = some kind ∧ endsStatements kind = false := by
  cases forms with
  | expression _ value =>
    obtain ⟨first, others, rfl, opens, -⟩ := value.startsExpr
    exact ⟨first, rfl, endsStatements_of_opensExpr (Place.opensExpr opens)⟩
  | declaration declares =>
    obtain ⟨first, others, rfl, opens, -⟩ := declares.startsDeclaration
    exact ⟨first, rfl, endsStatements_of_opensDeclaration opens⟩
  | _ => exact ⟨_, rfl, rfl⟩

theorem Forms.of_isBlock (forms : Forms types (.one statement) lexemes behind)
    (isBlock : statement.isBlock) : ∃ span statements inner last, statement = .block span statements ∧
      lexemes = mark .leftBrace :: (inner ++ [mark .rightBrace]) ∧
      Forms types (.several statements) inner last := by
  cases statement <;> cases isBlock
  cases forms with
  | declaration declares => cases declares
  | block span inner => exact ⟨_, _, _, _, rfl, rfl, inner⟩

theorem Forms.startsSeveral {statements : List Statement}
    (forms : Forms types (.several statements) lexemes behind) :
    lexemes = [] ∨ ∃ kind, lexemes.head? = some kind ∧ endsStatements kind = false := by
  cases forms with
  | nil => exact .inl rfl
  | cons first _ =>
    obtain ⟨kind, head, opens⟩ := first.starts
    exact .inr ⟨kind, by rw [List.head?_append, head]; rfl, opens⟩

end InlineMacro.Parser
