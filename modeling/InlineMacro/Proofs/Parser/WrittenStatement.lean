import InlineMacro.Proofs.Parser.ReadingBack

/-!
# Statements as they are written

A statement takes lines of its own, and so does each name that it declares: a declaration of several
names is written as one for each. What reads back is therefore not the statement but the one with its
declarations taken apart, and a declaration of several names has to stand where several statements may.
Names of types come and go from one line to the next.
-/

set_option autoImplicit false

namespace InlineMacro

open InlineMacro.Parser (Derives Specifiers Declares DeclaresMore DeclaresAll DeclaresLocally GivesValue
  Forms OpensLoop Optionally StatementPhrase StatementProperty Threaded enclosed writtenTree)
open Node (allReadBack allReadBack_cons allReadBack_append allReadBack_optional)
open Printer

/-! ## Declarations taken apart -/

def Statement.isSingle : Statement → Bool
  | .declaration _ declarations => declarations.length == 1
  | _ => true

/-- A declaration for each of the names that a statement declares; of any other statement what it has
become. -/
def Statement.separately : Statement → Statement → List Statement
  | .declaration span declarations, _ => declarations.map fun declared => .declaration span [declared]
  | _, become => [become]

mutual

def Statement.apart : Statement → Statement
  | .block span statements => .block span (Statement.listApart statements)
  | .ifElse span condition thenBranch none => .ifElse span condition thenBranch.apart none
  | .ifElse span condition thenBranch (some elseBranch) =>
    .ifElse span condition thenBranch.apart (some elseBranch.apart)
  | .whileLoop span condition body => .whileLoop span condition body.apart
  | .forLoop span init condition update body => .forLoop span init condition update body.apart
  | .doWhile span body condition => .doWhile span body.apart condition
  | .switch span subject body => .switch span subject body.apart
  | .caseLabel span value statement => .caseLabel span value statement.apart
  | .defaultLabel span statement => .defaultLabel span statement.apart
  | .labelled span label statement => .labelled span label statement.apart
  | statement => statement

def Statement.listApart : List Statement → List Statement
  | [] => []
  | statement :: statements => statement.separately statement.apart ++ Statement.listApart statements

end

def Statement.typesBehind (types : List String) : Statement → List String
  | .declaration _ declarations => declarations.foldl (fun types declared => declared.typesBehind types) types
  | .ifElse _ _ thenBranch none => thenBranch.typesBehind types
  | .ifElse _ _ thenBranch (some elseBranch) => elseBranch.typesBehind (thenBranch.typesBehind types)
  | .whileLoop _ _ body | .doWhile _ body _ | .switch _ _ body => body.typesBehind types
  | .caseLabel _ _ statement | .defaultLabel _ statement | .labelled _ _ statement =>
    statement.typesBehind types
  | _ => types

/-! ## Statements that read back -/

def Declaration.readsBack (types : List String) (declaration : Declaration) : Bool :=
  allReadBack types declaration.type.nodes &&
    allReadBack (declaration.typesBehind types) (optionalNodes Initializer.nodes declaration.initializer)

def Declaration.listReadBack (types : List String) : List Declaration → Bool
  | [] => true
  | declaration :: declarations =>
    declaration.readsBack types && listReadBack (declaration.typesBehind types) declarations

def Statement.headReadsBack (types : List String) : Option Statement → Bool
  | none => true
  | some (.expression _ value) => allReadBack types value.nodes
  | some (.declaration _ declarations) =>
    Declaration.listReadBack types declarations && declarations.all fun declared => !declared.isInline
  | _ => false

mutual

/-- Whether a statement reads back, with each name declared on its own. A branch, the body of a loop and
what a label stands in front of are one statement. -/
def Statement.readsBack (types : List String) : Statement → Bool
  | .expression _ value => allReadBack types value.nodes
  | .block _ statements => Statement.listReadBack types statements
  | .declaration _ declarations => Declaration.listReadBack types declarations
  | .typeDefinition _ type => allReadBack types type.nodes
  | .ifElse _ condition thenBranch none =>
    allReadBack types condition.nodes && thenBranch.isSingle && thenBranch.readsBack types
  | .ifElse _ condition thenBranch (some elseBranch) =>
    allReadBack types condition.nodes && thenBranch.isSingle && thenBranch.readsBack types &&
      elseBranch.isSingle && elseBranch.readsBack (thenBranch.typesBehind types)
  | .whileLoop _ condition body => allReadBack types condition.nodes && body.isSingle && body.readsBack types
  | .forLoop _ init condition update body =>
    let inside := init.elim types (Statement.typesBehind types)
    Statement.headReadsBack types init && allReadBack inside (optionalNodes Expr.nodes condition) &&
      allReadBack inside (optionalNodes Expr.nodes update) && body.isSingle && body.readsBack inside
  | .doWhile _ body condition =>
    body.isSingle && body.readsBack types && allReadBack (body.typesBehind types) condition.nodes
  | .switch _ subject body => allReadBack types subject.nodes && body.isSingle && body.readsBack types
  | .caseLabel _ value statement =>
    allReadBack types value.nodes && statement.isSingle && statement.readsBack types
  | .defaultLabel _ statement => statement.isSingle && statement.readsBack types
  | .returnStatement _ value => allReadBack types (optionalNodes Expr.nodes value)
  | .labelled _ _ statement => statement.isSingle && statement.readsBack types
  | .breakStatement _ | .continueStatement _ | .gotoStatement .. | .empty _ => true

def Statement.listReadBack (types : List String) : List Statement → Bool
  | [] => true
  | statement :: statements =>
    statement.readsBack types && Statement.listReadBack (statement.typesBehind types) statements

end

theorem Statement.isOpen_apart (statement : Statement) : statement.apart.isOpen = statement.isOpen := by
  induction statement with
  | ifElse _ _ _ _ _ ih => exact ih
  | whileLoop _ _ _ ih | bareLoop _ _ _ _ ih | doWhile _ _ _ ih | switch _ _ _ ih => first | exact ih | rfl
  | forLoop _ _ _ _ _ _ ih => exact ih
  | caseLabel _ _ _ ih | defaultLabel _ _ ih | labelled _ _ _ ih => exact ih
  | _ => rfl

theorem Statement.separately_eq (statement : Statement) (single : statement.isSingle) :
    statement.separately statement.apart = [statement.apart] := by
  cases statement with
  | declaration span declarations =>
    obtain ⟨declared, rfl⟩ := List.length_eq_one_iff.mp (beq_iff_eq.mp single)
    rfl
  | _ => rfl

/-! ## Lines of statements -/

variable {types middle behind : List String} {text rest : String} {texts : List String}
  {lexemes more : List Lexeme} {statement : Statement} {depth : Nat}

namespace Parser.Forms

theorem single (forms : Forms types (.one statement) lexemes behind) :
    Forms types (.several [statement]) lexemes behind := by
  rw [← List.append_nil lexemes]
  exact .cons forms (.nil behind)

theorem of_single (forms : Forms types (.several [statement]) lexemes behind) :
    Forms types (.one statement) lexemes behind := by
  cases forms with
  | cons first others =>
    cases others
    rwa [List.append_nil]

theorem append {statements others : List Statement} (first : Forms types (.several statements) lexemes middle)
    (second : Forms middle (.several others) more behind) :
    Forms types (.several (statements ++ others)) (lexemes ++ more) behind := by
  induction statements generalizing types lexemes with
  | nil =>
    cases first
    exact second
  | cons statement statements ih =>
    cases first with
    | cons one several =>
      rw [List.append_assoc]
      exact .cons one (ih several)

end Parser.Forms

/-- A statement takes lines that are read as what it is taken apart into, and behind `else` a branch goes
on in the same line. -/
def Statement.IsWritten (types behind : List String) (depth : Nat) (statement : Statement) : Prop :=
  ∃ lexemes, Forms types (.several (statement.separately statement.apart)) lexemes behind ∧
    LinesWritten (statementLines depth "" statement) lexemes ∧
    (statement.isBranch →
      LinesWritten (statementLines depth "else " statement) (.keyword .kwElse :: lexemes))

theorem Statement.IsWritten.ofOne {become : Statement}
    (one : statement.separately statement.apart = [become]) (noBranch : statement.isBranch = false)
    (forms : Forms types (.one become) lexemes behind)
    (lines : LinesWritten (statementLines depth "" statement) lexemes) :
    statement.IsWritten types behind depth := by
  refine ⟨lexemes, ?_, lines, fun isBranch => ?_⟩
  · rw [one]
    exact forms.single
  · rw [noBranch] at isBranch
    cases isBranch

theorem Statement.IsWritten.exists_one (written : statement.IsWritten types behind depth)
    (single : statement.isSingle) : ∃ lexemes, Forms types (.one statement.apart) lexemes behind ∧
      LinesWritten (statementLines depth "" statement) lexemes ∧
      (statement.isBranch →
        LinesWritten (statementLines depth "else " statement) (.keyword .kwElse :: lexemes)) := by
  obtain ⟨lexemes, forms, lines⟩ := written
  rw [statement.separately_eq single] at forms
  exact ⟨lexemes, forms.of_single, lines⟩

/-! ### Words and parentheses -/

theorem Written.enclosed (word : Keyword) (plain : word ≠ .kwAsm) (inner : Written text lexemes) :
    Written (word.spelling ++ " (" ++ text ++ ")") (.keyword word :: enclosed lexemes) := by
  have front : Written word.spelling [.keyword word] :=
    show Written (Lexeme.keyword word).spelling _ from
      .lexeme rfl (by cases word <;> first | rfl | exact absurd rfl plain)
  have opening := (front.spaced (.mark .leftParen)).append inner (Written.endsBefore_opening (.inl rfl) _)
  have whole := opening.close (.mark .rightParen) (by decide)
  have same : word.spelling ++ " " ++ Mark.leftParen.spelling = word.spelling ++ " (" := String.append_assoc
  rw [same, List.append_assoc, List.append_assoc] at whole
  exact whole

theorem Written.word (word : Keyword) (plain : word ≠ .kwAsm) : Written word.spelling [.keyword word] :=
  show Written (Lexeme.keyword word).spelling _ from
    .lexeme rfl (by cases word <;> first | rfl | exact absurd rfl plain)

theorem exists_writtenPart {value : Option Expr}
    (each : ∀ tree ∈ value, tree.IsWritten types 0 (exprText depth 0 tree)) :
    ∃ lexemes, Written (loopPartText depth value) lexemes ∧ Optionally types value lexemes ∧
      startsAmong closers (loopPartText depth value) := by
  cases value with
  | none => exact ⟨[], .empty, .absent, rfl⟩
  | some tree =>
    obtain ⟨lexemes, written, derives, -⟩ := each tree rfl
    refine ⟨lexemes, written.blank, .present derives, ?_⟩
    rw [loopPartText, startsAmong, String.toList_append]
    rfl

/-! ## All statements -/

namespace Item

def typesBehind (types : List String) : Item → List String
  | .declaration declared => declared.typesBehind types
  | _ => types

def readsBack (types : List String) : Item → Bool
  | .function definition => allReadBack types definition.type.nodes && definition.body.readsBack types
  | .declaration declared => declared.readsBack types
  | .typeDefinition type _ => allReadBack types type.nodes
  | .verbatim .. => false

def listReadBack (types : List String) : List Item → Bool
  | [] => true
  | item :: items => item.readsBack types && listReadBack (item.typesBehind types) items

theorem listReadBack_declarations (types : List String) (declarations : List Declaration) :
    listReadBack types (declarations.map .declaration) = Declaration.listReadBack types declarations := by
  induction declarations generalizing types with
  | nil => rfl
  | cons declared declarations ih =>
    rw [List.map_cons, listReadBack, Declaration.listReadBack, typesBehind, ih, readsBack]

def apart : Item → Item
  | .function definition => .function { definition with body := definition.body.apart }
  | item => item

def lines : Item → List String
  | .function definition => functionLines definition ++ [""]
  | .declaration declared => [declarationText 0 declared]
  | .typeDefinition type _ => [type.text ++ ";"]
  | .verbatim .. => []

end Item

namespace Parser

/-- The property that a statement takes lines that are read as the statement, taken apart, if it reads
back, and that items do. -/
def writtenStatement : StatementProperty where
  tree _ := writtenTree
  statement types statement behind := behind = statement.typesBehind types ∧
    (statement.readsBack types → ∀ depth, statement.IsWritten types behind depth)
  items types items behind := behind = items.foldl (fun types item => item.typesBehind types) types ∧
    (Item.listReadBack types items → ∃ lexemes, FormsItems types (items.map Item.apart) lexemes behind ∧
      LinesWritten (items.flatMap Item.lines) lexemes)

/-! ### Declarations -/

theorem Threaded.foldl_eq {σ α : Type} {step : σ → α → σ → Prop} {next : σ → α → σ}
    (same : ∀ before value after, step before value after → after = next before value)
    {start stop : σ} {values : List α} (threaded : Threaded step start values stop) :
    stop = values.foldl next start := by
  induction threaded with
  | nil => rfl
  | cons first _ ih => rw [ih, same _ _ _ first, List.foldl_cons]

section Declarations

variable {words : Specifiers} {base : CType} {declaration : Declaration} {declarations : List Declaration}

theorem writtenTree_core (written : writtenTree.base base) : base.core = base := by
  rcases written with worded | ⟨qualifiers, inner, rfl, -, -⟩
  · exact worded.1.1
  · rfl

theorem writtenStatement_core (written : writtenTree.base base)
    (declares : writtenStatement.declares Lexeme.isKept words base types declaration behind) :
    declaration.type.core = base := by
  obtain ⟨⟨declared, -, -, typed⟩, -⟩ := declares
  rw [typed, declared.core_typeFrom, writtenTree_core written]

theorem writtenStatement_typesBehind
    (declares : writtenStatement.declaresAll Lexeme.isKept words types declarations behind) :
    behind = declarations.foldl (fun types declared => declared.typesBehind types) types := by
  obtain ⟨-, first, others, middle, rfl, ⟨-, -, -, rfl, -⟩, threaded⟩ := declares
  exact threaded.foldl_eq fun _ _ _ declares => declares.2.2.2.1

theorem writtenStatement_declares (written : writtenTree.base base)
    (declares : writtenStatement.declares Lexeme.isKept words base types declaration behind)
    (readsBack : declaration.readsBack types) (depth : Nat) : declaration.IsWritten types depth := by
  obtain ⟨⟨declared, built, named, typed⟩, -, -, -, initialized⟩ := declares
  obtain ⟨readsType, readsValue⟩ := Bool.and_eq_true_iff.mp readsBack
  have closed := writtenTree_closed types
  have whole : writtenTree.type declaration.type := by
    rw [typed]
    exact closed.type_typeFrom (closed.base_type written) built
  constructor
  · refine writtenTree_parts whole readsType ?_ depth
    rintro _ ⟨⟩
    exact (built.1 _ named).ordinary
  · exact fun value isValue =>
      initialized value isValue _ (allReadBack_optional.mp readsValue value isValue) depth

theorem writtenStatement_declaresMore (written : writtenTree.base base)
    (threaded : Threaded (writtenStatement.declares Lexeme.isKept words base) types declarations behind)
    (readBack : Declaration.listReadBack types declarations) (depth : Nat) :
    ∃ lexemes, DeclaresMore words base types declarations lexemes behind ∧
      ∀ {text : String} {front : List Lexeme}, Written text front →
        Written (Text.join ", " (text :: declarations.map fun other =>
          (declaratorParts depth none other.name other.type).2 ++
            initialValueText depth other.initializer)) (front ++ lexemes) := by
  induction threaded with
  | nil => exact ⟨[], .nil _, fun front => by rwa [List.append_nil]⟩
  | @cons types middle behind declaration declarations declares others ih =>
    obtain ⟨readsFirst, readOthers⟩ := Bool.and_eq_true_iff.mp readBack
    have first := writtenStatement_declares written declares readsFirst depth
    have core := writtenStatement_core written declares
    obtain ⟨-, storage, isInline, rfl, -⟩ := declares
    obtain ⟨lexemes, more, joined⟩ := ih readOthers
    obtain ⟨own, writtenOwn, declaresOwn⟩ := first.exists_declares words storage.symm isInline.symm
    rw [core] at declaresOwn
    refine ⟨_, .cons declaresOwn more, fun front => ?_⟩
    rw [List.map_cons]
    exact front.join_cons (joined writtenOwn) nofun

theorem writtenStatement_declaresAll
    (declares : writtenStatement.declaresAll Lexeme.isKept words types declarations behind)
    (readBack : Declaration.listReadBack types declarations) (depth : Nat) :
    Threaded (fun before declaration after => declaration.IsWritten before depth ∧
      after = declaration.typesBehind before) types declarations behind := by
  obtain ⟨written, first, others, middle, rfl, declares, threaded⟩ := declares
  have shared : writtenTree.base words.base.withoutBodies := (writtenTree_closed types).base_withoutBodies written
  obtain ⟨readsFirst, readOthers⟩ := Bool.and_eq_true_iff.mp readBack
  have one := writtenStatement_declares written declares readsFirst depth
  obtain ⟨-, -, -, rfl, -⟩ := declares
  refine .cons ⟨one, rfl⟩ ?_
  clear one readsFirst readBack
  generalize first.typesBehind types = before at readOthers threaded
  induction threaded with
  | nil => exact .nil _
  | cons declares _ ih =>
    obtain ⟨readsFirst, readOthers⟩ := Bool.and_eq_true_iff.mp readOthers
    have one := writtenStatement_declares shared declares readsFirst depth
    obtain ⟨-, -, -, rfl, -⟩ := declares
    exact .cons ⟨one, rfl⟩ (ih readOthers)

theorem writtenStatement_loopDeclarations
    (declares : writtenStatement.declaresAll Lexeme.isKept words types declarations behind)
    (readBack : Declaration.listReadBack types declarations)
    (noInline : declarations.all fun declared => !declared.isInline) (depth : Nat) :
    ∃ lexemes, Written (Text.join ", " (loopDeclarationTexts depth declarations) ++ ";") lexemes ∧
      DeclaresAll types declarations lexemes behind := by
  obtain ⟨written, first, others, middle, rfl, declares, threaded⟩ := declares
  have shared : writtenTree.base words.base.withoutBodies := (writtenTree_closed types).base_withoutBodies written
  obtain ⟨readsFirst, readOthers⟩ := Bool.and_eq_true_iff.mp readBack
  have core := writtenStatement_core written declares
  obtain ⟨lexemes, more, front, specifiers, declaresFirst⟩ :=
    (writtenStatement_declares written declares readsFirst depth).exists_parts
  obtain ⟨-, storage, isInline, rfl, -⟩ := declares
  have plain : first.isInline = false := by simpa using (Bool.and_eq_true_iff.mp noInline).1
  have same : (⟨first.storage, first.isInline, first.type.core⟩ : Specifiers) = words := by
    rw [storage, isInline, core]
  rw [same] at specifiers declaresFirst
  rw [core] at declaresFirst
  rw [plain, inlineText, if_neg Bool.false_ne_true, String.append_empty] at front
  obtain ⟨last, declaresOthers, joined⟩ := writtenStatement_declaresMore shared threaded readOthers depth
  refine ⟨_, (joined front).close (.mark .semicolon) (by decide), ?_⟩
  have all := DeclaresAll.intro specifiers declaresFirst declaresOthers
  simp only [List.append_assoc] at all ⊢
  exact all

theorem writtenStatement_headTypes {init : Option Statement}
    (head : writtenStatement.loopInit Lexeme.isKept types init behind) :
    init.elim types (Statement.typesBehind types) = behind := by
  unfold StatementProperty.loopInit at head
  split at head
  · exact head.symm
  · exact head.1.symm
  · obtain ⟨words, declares⟩ := head
    exact (writtenStatement_typesBehind declares).symm
  · exact head.1.symm
  · cases head

theorem writtenStatement_loopInit {init : Option Statement}
    (head : writtenStatement.loopInit Lexeme.isKept types init behind)
    (readsBack : Statement.headReadsBack types init) (depth : Nat) :
    ∃ lexemes, Written (loopInitText depth init) lexemes ∧ OpensLoop types init lexemes behind := by
  unfold StatementProperty.loopInit at head
  split at head
  · subst head
    exact ⟨_, .mark .semicolon, .absent⟩
  · next span value =>
    obtain ⟨same, written⟩ := head
    obtain ⟨lexemes, written, derives, -⟩ := written types readsBack depth 0
    rw [same]
    exact ⟨_, written.close (.mark .semicolon) (by decide), .expression span derives⟩
  · next span declarations =>
    obtain ⟨words, declares⟩ := head
    obtain ⟨readBack, noInline⟩ := Bool.and_eq_true_iff.mp readsBack
    obtain ⟨lexemes, written, declaresAll⟩ :=
      writtenStatement_loopDeclarations declares readBack noInline depth
    exact ⟨lexemes, written, .declaration (.declaration span declaresAll)⟩
  · cases readsBack
  · cases head

end Declarations

theorem writtenStatement_lines {declarations : List Declaration} (span : Span) (depth : Nat)
    (written : Threaded (fun before declaration after => declaration.IsWritten before depth ∧
      after = declaration.typesBehind before) types declarations behind) :
    ∃ lexemes, Forms types (.several (declarations.map fun declared => .declaration span [declared]))
        lexemes behind ∧
      LinesWritten (declarations.map fun declared => line depth (declarationText depth declared)) lexemes := by
  induction written with
  | nil => exact ⟨[], .nil _, .nil⟩
  | cons first _ ih =>
    obtain ⟨first, rfl⟩ := first
    obtain ⟨lexemes, text, declares⟩ := first.exists_text
    obtain ⟨more, forms, lines⟩ := ih
    exact ⟨_, .cons (.declaration (.declaration span declares)) forms, .cons (text.indented depth) lines⟩

theorem writtenStatement_items {declarations : List Declaration}
    (written : Threaded (fun before declaration after => declaration.IsWritten before 0 ∧
      after = declaration.typesBehind before) types declarations behind) :
    ∃ lexemes, FormsItems types ((declarations.map Item.declaration).map Item.apart) lexemes behind ∧
      LinesWritten ((declarations.map Item.declaration).flatMap Item.lines) lexemes := by
  induction written with
  | nil => exact ⟨[], .nil _, .nil⟩
  | cons first _ ih =>
    obtain ⟨first, rfl⟩ := first
    obtain ⟨lexemes, text, declares⟩ := first.exists_text
    obtain ⟨more, forms, lines⟩ := ih
    exact ⟨_, .declarations declares forms, .cons text lines⟩

/-! ### Parts of statements -/

theorem writtenStatement_body (written : writtenStatement.statement types statement behind)
    (single : statement.isSingle) (readsBack : statement.readsBack types) (depth : Nat) :
    ∃ lexemes, Forms types (.one statement.apart) lexemes behind ∧
      LinesWritten (statementLines depth "" statement) lexemes := by
  obtain ⟨lexemes, forms, lines, -⟩ := (written.2 readsBack depth).exists_one single
  exact ⟨lexemes, forms, lines⟩

theorem writtenStatement_several {statements : List Statement}
    (threaded : Threaded writtenStatement.statement types statements behind)
    (readBack : Statement.listReadBack types statements) (depth : Nat) :
    ∃ lexemes, Forms types (.several (Statement.listApart statements)) lexemes behind ∧
      LinesWritten (statementsLines depth statements) lexemes := by
  induction threaded with
  | nil => exact ⟨[], .nil _, .nil⟩
  | cons written _ ih =>
    obtain ⟨readsFirst, readOthers⟩ := Bool.and_eq_true_iff.mp readBack
    obtain ⟨rfl, written⟩ := written
    obtain ⟨lexemes, forms, lines, -⟩ := written readsFirst depth
    obtain ⟨more, formsMore, linesMore⟩ := ih readOthers
    exact ⟨_, forms.append formsMore, lines.append linesMore⟩

theorem linesWritten_enclosed (word : Keyword) (plain : word ≠ .kwAsm) (depth : Nat)
    (inner : Written text lexemes) (below : LinesWritten texts more) :
    LinesWritten (line depth (word.spelling ++ " (" ++ text ++ ")") :: texts)
      (.keyword word :: (enclosed lexemes ++ more)) := by
  have whole := LinesWritten.cons ((inner.enclosed word plain).indented depth) below
  rwa [List.cons_append] at whole

theorem writtenStatement_branch {lead : String} {front : List Lexeme}
    (isLead : lead = "" ∧ front = [] ∨ lead = "else " ∧ front = [.keyword .kwElse]) (depth : Nat)
    (written : Written text lexemes) (below : LinesWritten texts more) :
    LinesWritten (line depth (lead ++ "if (" ++ text ++ ")") :: texts)
      (front ++ .keyword .kwIf :: (enclosed lexemes ++ more)) := by
  have own : Written ("if (" ++ text ++ ")") (.keyword .kwIf :: enclosed lexemes) := written.enclosed .kwIf nofun
  rcases isLead with ⟨rfl, rfl⟩ | ⟨rfl, rfl⟩
  · have whole := LinesWritten.cons (own.indented depth) below
    rwa [String.empty_append]
  · have word : Written "else" [.keyword .kwElse] := .word .kwElse nofun
    have whole := LinesWritten.cons ((word.spaced own).indented depth) below
    have same : "else" ++ " " ++ ("if (" ++ text ++ ")") = "else " ++ "if (" ++ text ++ ")" := by
      rw [← String.append_assoc]
      rfl
    rwa [same] at whole

/-! ### Items -/

theorem FormsItems.append {items others : List Item} (first : FormsItems types items lexemes middle)
    (second : FormsItems middle others more behind) :
    FormsItems types (items ++ others) (lexemes ++ more) behind := by
  induction first with
  | nil => exact second
  | typeDefinition span given _ ih =>
    rw [List.append_assoc, List.cons_append, List.cons_append]
    exact .typeDefinition span given (ih second)
  | declarations declares _ ih =>
    rw [List.append_assoc, List.append_assoc]
    exact .declarations declares (ih second)
  | function heads isBlock body _ ih =>
    rw [List.append_assoc, List.append_assoc, List.cons_append]
    exact .function heads isBlock body (ih second)

theorem writtenStatement_header {definition : Function} (typed : writtenTree.type definition.type)
    (ordinary : isOrdinary definition.name) (readsBack : allReadBack types definition.type.nodes) :
    ∃ lexemes, Written (headerText definition) lexemes ∧
      ∀ body, Heads types { definition with body := body } lexemes := by
  have parted : definition.type.PartsWritten types (some definition.name)
      (declaratorParts 0 none definition.name definition.type) :=
    writtenTree_parts typed readsBack (by rintro _ ⟨⟩; exact ordinary) 0
  obtain ⟨base, spec, declared, lexemes, written, given, derives, named, same⟩ := parted.written
  refine ⟨_, written.leading definition.storage definition.isInline, fun body => ?_⟩
  rw [← List.append_assoc]
  exact .intro (given.leading definition.storage definition.isInline) derives named same rfl rfl

theorem writtenStatement_typeDefinition {type : CType} (written : writtenTree.base type)
    (readsBack : allReadBack types type.nodes) (depth : Nat) : ∃ lexemes,
      Written (declaratorText depth type "" ++ ";") (lexemes ++ [.mark .semicolon]) ∧
        Derives types (.specifiers ⟨none, false, type⟩) lexemes := by
  obtain ⟨text, lexemes, specifiers, same⟩ : ∃ text lexemes, type.SpecifiersWritten types text lexemes ∧
      declaratorParts depth none "" type = (text, "") := by
    rcases written with worded | ⟨qualifiers, inner, rfl, some, worded⟩
    · obtain ⟨text, lexemes, words, same⟩ := worded.1.2 types readsBack depth
      exact ⟨_, _, words.specifiers, same none ""⟩
    · obtain ⟨text, lexemes, words, same⟩ := worded.1.2 types (allReadBack_cons.mp readsBack).2 depth
      exact ⟨_, _, words.qualified some, by rw [declaratorParts, same]; rfl⟩
  refine ⟨lexemes, ?_, specifiers.derives⟩
  rw [declaratorText, same]
  exact specifiers.written.close (.mark .semicolon) (by decide)

/-! ### All forms -/

theorem writtenStatement_closed : writtenStatement.Closed Lexeme.isKept := by
  constructor
  case trees => exact writtenTree_closed
  case expression =>
    intro types span value written
    refine ⟨rfl, fun readsBack depth => ?_⟩
    obtain ⟨lexemes, text, derives, -⟩ := written types readsBack depth 0
    exact .ofOne rfl rfl (.expression span derives)
      (.single ((text.close (.mark .semicolon) (by decide)).indented depth))
  case block =>
    intro types behind span statements threaded
    refine ⟨rfl, fun readsBack depth => ?_⟩
    obtain ⟨lexemes, forms, lines⟩ := writtenStatement_several threaded readsBack (depth + 1)
    exact .ofOne rfl rfl (.block span forms) (.cons ((Written.mark .leftBrace).indented depth)
      (lines.append (.single ((Written.mark .rightBrace).indented depth))))
  case declaration =>
    intro types behind span words declarations declares
    refine ⟨writtenStatement_typesBehind declares, fun readsBack depth => ?_⟩
    obtain ⟨lexemes, forms, lines⟩ :=
      writtenStatement_lines span depth (writtenStatement_declaresAll declares readsBack depth)
    exact ⟨lexemes, forms, lines, nofun⟩
  case typeDefinition =>
    intro types span type written
    refine ⟨rfl, fun readsBack depth => ?_⟩
    obtain ⟨lexemes, text, derives⟩ := writtenStatement_typeDefinition written readsBack depth
    have forms := DeclaresLocally.typeDefinition span derives
    exact .ofOne rfl rfl (.declaration forms) (.single (text.indented depth))
  case ifThen =>
    intro types behind span condition thenBranch chooses inner
    refine ⟨inner.1, fun readsBack depth => ?_⟩
    simp only [Statement.readsBack, Bool.and_eq_true] at readsBack
    obtain ⟨⟨readsCondition, single⟩, readsThen⟩ := readsBack
    obtain ⟨lexemes, text, derives, -⟩ := chooses types readsCondition depth 0
    obtain ⟨more, forms, lines⟩ := writtenStatement_body inner single readsThen (bodyDepth depth thenBranch)
    refine ⟨_, (Forms.ifThen span derives forms).single, ?_, fun _ => ?_⟩
    · exact writtenStatement_branch (.inl ⟨rfl, rfl⟩) depth text lines
    · exact writtenStatement_branch (.inr ⟨rfl, rfl⟩) depth text lines
  case ifElse =>
    intro types middle behind span condition thenBranch elseBranch chooses inner notOpen other
    refine ⟨other.1.trans (congrArg elseBranch.typesBehind inner.1), fun readsBack depth => ?_⟩
    simp only [Statement.readsBack, Bool.and_eq_true] at readsBack
    obtain ⟨⟨⟨⟨readsCondition, single⟩, readsThen⟩, singleElse⟩, readsElse⟩ := readsBack
    rw [← inner.1] at readsElse
    obtain ⟨lexemes, text, derives, -⟩ := chooses types readsCondition depth 0
    obtain ⟨more, forms, lines⟩ := writtenStatement_body inner single readsThen (bodyDepth depth thenBranch)
    obtain ⟨last, formsElse, linesElse⟩ : ∃ last, Forms middle (.one elseBranch.apart) last behind ∧
        LinesWritten (if elseBranch.isBranch then statementLines depth "else " elseBranch
          else line depth "else" :: statementLines (bodyDepth depth elseBranch) "" elseBranch)
          (.keyword .kwElse :: last) := by
      split
      · next isBranch =>
        obtain ⟨last, forms, -, lines⟩ := (other.2 readsElse depth).exists_one singleElse
        exact ⟨last, forms, lines isBranch⟩
      · obtain ⟨last, forms, lines⟩ :=
          writtenStatement_body other singleElse readsElse (bodyDepth depth elseBranch)
        have word : Written "else" [.keyword .kwElse] := .word .kwElse nofun
        exact ⟨last, forms, .cons (word.indented depth) lines⟩
    have whole := lines.append linesElse
    refine ⟨_, (Forms.ifElse span derives forms ?_ formsElse).single, ?_, fun _ => ?_⟩
    · rw [Statement.isOpen_apart]
      exact notOpen
    · exact writtenStatement_branch (.inl ⟨rfl, rfl⟩) depth text whole
    · exact writtenStatement_branch (.inr ⟨rfl, rfl⟩) depth text whole
  case whileLoop =>
    intro types behind span condition body chooses inner
    refine ⟨inner.1, fun readsBack depth => ?_⟩
    simp only [Statement.readsBack, Bool.and_eq_true] at readsBack
    obtain ⟨⟨readsCondition, single⟩, readsBody⟩ := readsBack
    obtain ⟨lexemes, text, derives, -⟩ := chooses types readsCondition depth 0
    obtain ⟨more, forms, lines⟩ := writtenStatement_body inner single readsBody (bodyDepth depth body)
    exact .ofOne rfl rfl (.whileLoop span derives forms) (linesWritten_enclosed .kwWhile nofun depth text lines)
  case switch =>
    intro types behind span subject body chooses inner
    refine ⟨inner.1, fun readsBack depth => ?_⟩
    simp only [Statement.readsBack, Bool.and_eq_true] at readsBack
    obtain ⟨⟨readsSubject, single⟩, readsBody⟩ := readsBack
    obtain ⟨lexemes, text, derives, -⟩ := chooses types readsSubject depth 0
    obtain ⟨more, forms, lines⟩ := writtenStatement_body inner single readsBody (bodyDepth depth body)
    exact .ofOne rfl rfl (.switch span derives forms) (linesWritten_enclosed .kwSwitch nofun depth text lines)
  case forLoop =>
    intro types middle behind span init condition update body head tests updates inner
    refine ⟨rfl, fun readsBack depth => ?_⟩
    have inside := writtenStatement_headTypes head
    simp only [Statement.readsBack, inside, Bool.and_eq_true] at readsBack
    obtain ⟨⟨⟨⟨readsHead, readsCondition⟩, readsUpdate⟩, single⟩, readsBody⟩ := readsBack
    obtain ⟨lexemes, text, opens⟩ := writtenStatement_loopInit head readsHead depth
    obtain ⟨tested, testText, testForms, testStarts⟩ := exists_writtenPart fun tree isTree =>
      tests tree isTree middle (allReadBack_optional.mp readsCondition tree isTree) depth 0
    obtain ⟨updated, updateText, updateForms, updateStarts⟩ := exists_writtenPart fun tree isTree =>
      updates tree isTree middle (allReadBack_optional.mp readsUpdate tree isTree) depth 0
    obtain ⟨more, forms, lines⟩ := writtenStatement_body inner single readsBody (bodyDepth depth body)
    refine .ofOne rfl rfl (.forLoop span opens testForms updateForms forms) ?_
    have word : Written "for" [.keyword .kwFor] := .word .kwFor nofun
    have opening := (word.spaced (.mark .leftParen)).append text (Written.endsBefore_opening (.inl rfl) _)
    have whole := (((opening.close testText testStarts).close (.mark .semicolon) (by decide)).close
      updateText updateStarts).close (.mark .rightParen) (by decide)
    have below := LinesWritten.cons (whole.indented depth) lines
    simp only [List.append_assoc, List.cons_append, List.nil_append] at below
    exact below
  case doWhile =>
    intro types behind span body condition inner tests
    refine ⟨inner.1, fun readsBack depth => ?_⟩
    simp only [Statement.readsBack, Bool.and_eq_true, ← inner.1] at readsBack
    obtain ⟨⟨single, readsBody⟩, readsCondition⟩ := readsBack
    obtain ⟨more, text, derives, -⟩ := tests behind readsCondition depth 0
    obtain ⟨lexemes, forms, lines⟩ := writtenStatement_body inner single readsBody (bodyDepth depth body)
    refine .ofOne rfl rfl (.doWhile span forms derives) ?_
    have word : Written "do" [.keyword .kwDo] := .word .kwDo nofun
    have last := (text.enclosed .kwWhile nofun).close (.mark .semicolon) (by decide)
    have same : Keyword.kwWhile.spelling ++ " (" ++ exprText depth 0 condition ++ ")" ++
        Mark.semicolon.spelling = "while (" ++ exprText depth 0 condition ++ ");" := by
      rw [String.append_assoc]
      rfl
    rw [same] at last
    exact .cons (word.indented depth) (lines.append (.single (last.indented depth)))
  case caseLabel =>
    intro types behind span value statement written inner
    refine ⟨inner.1, fun readsBack depth => ?_⟩
    simp only [Statement.readsBack, Bool.and_eq_true] at readsBack
    obtain ⟨⟨readsValue, single⟩, readsBody⟩ := readsBack
    obtain ⟨lexemes, text, derives, -⟩ := written types readsValue depth Precedence.conditional
    obtain ⟨more, forms, lines⟩ := writtenStatement_body inner single readsBody (depth + 1)
    refine .ofOne rfl rfl (.caseLabel span derives forms) ?_
    have word : Written "case" [.keyword .kwCase] := .word .kwCase nofun
    have label := (word.spaced text).close (.mark .colon) (by decide)
    have below := LinesWritten.cons (label.indented depth) lines
    simp only [List.append_assoc, List.cons_append, List.nil_append] at below
    exact below
  case defaultLabel =>
    intro types behind span statement inner
    refine ⟨inner.1, fun readsBack depth => ?_⟩
    obtain ⟨single, readsBody⟩ := Bool.and_eq_true_iff.mp readsBack
    obtain ⟨more, forms, lines⟩ := writtenStatement_body inner single readsBody (depth + 1)
    have word : Written "default" [.keyword .kwDefault] := .word .kwDefault nofun
    exact .ofOne rfl rfl (.defaultLabel span forms)
      (.cons ((word.close (.mark .colon) (by decide)).indented depth) lines)
  case breakStatement =>
    intro types span
    refine ⟨rfl, fun _ depth => .ofOne rfl rfl (.breakStatement span) ?_⟩
    have word : Written "break" [.keyword .kwBreak] := .word .kwBreak nofun
    exact .single ((word.close (.mark .semicolon) (by decide)).indented depth)
  case continueStatement =>
    intro types span
    refine ⟨rfl, fun _ depth => .ofOne rfl rfl (.continueStatement span) ?_⟩
    have word : Written "continue" [.keyword .kwContinue] := .word .kwContinue nofun
    exact .single ((word.close (.mark .semicolon) (by decide)).indented depth)
  case returnStatement =>
    intro types span value written
    refine ⟨rfl, fun readsBack depth => ?_⟩
    have word : Written "return" [.keyword .kwReturn] := .word .kwReturn nofun
    cases value with
    | none =>
      exact .ofOne rfl rfl (.returnStatement span .absent)
        (.single ((word.close (.mark .semicolon) (by decide)).indented depth))
    | some value =>
      obtain ⟨lexemes, text, derives, -⟩ := written value rfl types readsBack depth 0
      exact .ofOne rfl rfl (.returnStatement span (.present derives))
        (.single (((word.spaced text).close (.mark .semicolon) (by decide)).indented depth))
  case gotoStatement =>
    intro types span label spelled
    refine ⟨rfl, fun _ depth => .ofOne rfl rfl (.gotoStatement span label) ?_⟩
    have word : Written "goto" [.keyword .kwGoto] := .word .kwGoto nofun
    exact .single (((word.spaced (.identifier spelled.ordinary)).close (.mark .semicolon)
      (by decide)).indented depth)
  case labelled =>
    intro types behind span label statement spelled inner
    refine ⟨inner.1, fun readsBack depth => ?_⟩
    obtain ⟨single, readsBody⟩ := Bool.and_eq_true_iff.mp readsBack
    obtain ⟨more, forms, lines⟩ := writtenStatement_body inner single readsBody depth
    have front := (Written.identifier spelled.ordinary).close (.mark .colon) (by decide)
    refine .ofOne rfl rfl (.labelled span label forms) ?_
    rw [statementLines]
    split
    · next isEmpty =>
      obtain ⟨emptySpan, rfl⟩ : ∃ emptySpan, statement = .empty emptySpan := by
        cases statement <;> first | exact ⟨_, rfl⟩ | cases isEmpty
      obtain rfl : more = [.mark .semicolon] := by
        cases forms with
        | declaration declares => cases declares
        | empty => rfl
      have whole := front.spaced (.mark .semicolon)
      have same : label ++ Mark.colon.spelling ++ " " ++ Mark.semicolon.spelling = label ++ ": ;" := by
        simp only [String.append_assoc]
        rfl
      rw [same] at whole
      exact .single (whole.indented depth)
    · exact .cons (front.indented depth) lines
  case empty =>
    intro types span
    exact ⟨rfl, fun _ depth => .ofOne rfl rfl (.empty span) (.single ((Written.mark .semicolon).indented depth))⟩
  case nothing => exact fun types => ⟨rfl, fun _ => ⟨[], .nil types, .nil⟩⟩
  case typeItem =>
    intro types span type written
    refine ⟨rfl, fun readBack => ?_⟩
    obtain ⟨readsBack, -⟩ := Bool.and_eq_true_iff.mp readBack
    obtain ⟨lexemes, text, derives⟩ := writtenStatement_typeDefinition written readsBack 0
    exact ⟨_, .typeDefinition span derives (.nil types), .single text⟩
  case declarations =>
    intro types behind words declarations declares
    refine ⟨?_, fun readBack => ?_⟩
    · rw [List.foldl_map]
      exact writtenStatement_typesBehind declares
    · rw [Item.listReadBack_declarations] at readBack
      exact writtenStatement_items (writtenStatement_declaresAll declares readBack 0)
  case function =>
    intro types definition spelled typed isBlock body
    refine ⟨rfl, fun readBack => ?_⟩
    obtain ⟨readsBack, -⟩ := Bool.and_eq_true_iff.mp readBack
    obtain ⟨readsHeader, readsBody⟩ := Bool.and_eq_true_iff.mp readsBack
    let become : Function := { definition with body := definition.body.apart }
    obtain ⟨lexemes, header, heads⟩ := writtenStatement_header typed spelled.ordinary readsHeader
    have heads : Heads types become lexemes := heads _
    have single : definition.body.isSingle := by
      cases same : definition.body <;> first | rfl | (rw [same] at isBlock; cases isBlock)
    have isBlock : become.body.isBlock := by
      show definition.body.apart.isBlock
      cases same : definition.body <;> first | rfl | (rw [same] at isBlock; cases isBlock)
    obtain ⟨more, forms, lines⟩ := writtenStatement_body body single readsBody 0
    have whole := FormsItems.function heads isBlock forms (.nil types)
    refine ⟨_, whole, ?_⟩
    have all := LinesWritten.cons header (lines.append (.single .empty))
    rw [List.flatMap_singleton]
    exact all

end Parser

end InlineMacro
