import InlineMacro.Proofs.Parser.StatementCoverage
import InlineMacro.Proofs.Run.Success

/-!
# The grammar covers its tokens

The productions tied together, by induction on the budget. A unit that parses has the names that are
written in its text, and every type that is given a body there, at least once.
-/

set_option autoImplicit false

namespace InlineMacro

namespace Parser

namespace Grammar

variable {word : String → Prop}

/-- Every production of declarators and expressions covers its tokens within a budget. -/
structure Covered (word : String → Prop) (budget : Nat) : Prop where
  expression : Reads word (expression budget) 0 Expr.content
  assignment : Reads word (assignment budget) 0 Expr.content
  conditional : Reads word (conditional budget) 0 Expr.content
  binary : ∀ level, Reads word (binary budget level) 0 Expr.content
  cast : Reads word (cast budget) 0 Expr.content
  unary : Reads word (unary budget) 0 Expr.content
  suffixed : Reads word (suffixed budget) 0 Expr.content
  suffixes : ∀ operand, Reads word (suffixes budget operand) operand.content Expr.content
  primary : Reads word (primary budget) 0 Expr.content
  initializer : Reads word (initializer budget) 0 Initializer.content
  initializerItem : Reads word (initializerItem budget) 0 Initializer.content
  typeName : Reads word (typeName budget) 0 CType.content
  specifiersOf : Reads word (specifiersOf budget) 0 Specifiers.content
  bodied : ∀ kind, ReadsBehind word (bodied budget kind)
  declarator : Reads word (declarator budget) 0 Declarator.content
  parameters : Reads word (parameters budget) 0 Derivation.content

theorem bodied_specified (budget : Nat) (kind : BodiedType) : Delivers (bodied budget kind) IsSpecified := by
  cases budget with
  | zero => exact .exhausted
  | succ budget =>
    cases kind with
    | record kind => exact recordForm_specified _ _ _ _ _
    | enumeration => exact enumerationForm_specified _ _

theorem specifiersOf_specified (budget : Nat) :
    Delivers (specifiersOf budget) fun given => IsSpecified given.base := by
  cases budget with
  | zero => exact .exhausted
  | succ budget => exact specifiers_specified (bodied_specified budget) budget

theorem covered (budget : Nat) : Covered word budget := by
  induction budget with
  | zero =>
    exact {
      expression := .exhausted
      assignment := .exhausted
      conditional := .exhausted
      binary := fun _ => .exhausted
      cast := .exhausted
      unary := .exhausted
      suffixed := .exhausted
      suffixes := fun _ => .exhausted
      primary := .exhausted
      initializer := .exhausted
      initializerItem := .exhausted
      typeName := .exhausted
      specifiersOf := .exhausted
      bodied := fun kind token keyword state value after isKeyword isBodied runs => nomatch runs
      declarator := .exhausted
      parameters := .exhausted }
  | succ budget ih =>
    exact {
      expression := expressionForm_reads ih.assignment budget
      assignment := assignmentForm_reads ih.conditional ih.assignment
      conditional := conditionalForm_reads (ih.binary 0) ih.expression ih.conditional
      binary := fun level => .ite ih.cast (binaryForm_reads level (ih.binary (level + 1)) budget)
      cast := castForm_reads ih.unary ih.cast ih.typeName ih.initializer ih.suffixes
      unary := unaryForm_reads ih.unary ih.cast ih.suffixed ih.typeName ih.initializer ih.suffixes
      suffixed := ih.primary.bind ih.suffixes
      suffixes := suffixesForm_reads ih.assignment ih.expression ih.typeName budget
      primary := primaryForm_reads ih.expression
      initializer := initializerForm_reads ih.assignment ih.initializerItem budget
      initializerItem := initializerItemForm_reads ih.conditional ih.initializer budget
      typeName := typeNameForm_reads ih.specifiersOf ih.declarator
      specifiersOf := specifiers_reads ih.bodied budget
      bodied := fun kind => by
        cases kind with
        | record kind =>
          exact recordForm_reads ih.specifiersOf (specifiersOf_specified budget) ih.declarator
            ih.conditional kind budget
        | enumeration => exact enumerationForm_reads ih.conditional budget
      declarator := declaratorForm_reads ih.assignment ih.declarator ih.parameters budget
      parameters := parameterList_reads ih.specifiersOf ih.declarator budget }

theorem localDeclaration_reads (budget : Nat) : Reads word (localDeclaration budget) 0 Statement.content := by
  cases budget with
  | zero => exact .exhausted
  | succ budget =>
    have inner : Covered word budget := covered budget
    exact localDeclarationForm_reads inner.declarator inner.initializer inner.specifiersOf
      (specifiersOf_specified budget) budget

theorem statement_reads (budget : Nat) : Reads word (statement budget) 0 Statement.content ∧
      Reads word (block budget) 0 Statement.content := by
  induction budget with
  | zero => exact ⟨.exhausted, .exhausted⟩
  | succ budget ih =>
    have inner : Covered word budget := covered budget
    exact ⟨statementForm_reads inner.expression inner.conditional (localDeclaration_reads budget)
      ih.2 ih.1, blockForm_reads ih.1 budget⟩

theorem functionForm_reads (given : Specifiers) (start : Location) (name : String) (result : CType)
    (parameters : List Parameter) (isVariadic : Bool) (budget : Nat) :
    Reads word (functionForm given start name result parameters isVariadic budget)
      (.ofOption (some name) + (CType.function result parameters isVariadic).content)
      fun function => (Item.function function).content :=
  (statement_reads budget).2.step fun _ => .skip (.spanFrom _) fun _ =>
    .pure (Item.content_function _)

theorem item_reads (budget : Nat) : Reads word (item budget) 0 (listContent Item.content) := by
  have inner : Covered word budget := covered budget
  refine .skip .location fun start => .skip (.acceptMark _) fun _ => .ite (.pure rfl) ?_
  refine inner.specifiersOf.stepWith (specifiersOf_specified budget) fun given specified =>
    .skip (.acceptMark _) fun _ => ?_
  rw [zero_add]
  refine .ite (.skip (.spanFrom _) fun _ => .pure ?_) ?_
  · rw [listContent_cons, listContent_nil, add_zero]
    rfl
  refine inner.declarator.step fun declared => .get fun state => ?_
  split
  · next result parameters isVariadic typed ahead =>
    split
    · exact Reads.fault _ _ state
    · next name named =>
      have header := declared.content_declared given.base
      rw [named, typed] at header
      change ReadsFrom word state _ (given.base.content + declared.content) _
      rw [← header]
      exact ((functionForm_reads given start name result parameters isVariadic budget).bind
        fun function => .pure (add_zero _)) state
  · refine ((initDeclarators_reads inner.declarator inner.initializer specified start declared
      budget).bind fun declarations => .pure ?_) state
    rw [listContent, List.map_map]
    exact congrArg List.sum (List.map_congr_left fun declaration _ =>
      Item.content_declaration declaration)

theorem unit_reads (budget : Nat) :
    Reads word (unit budget) 0 fun unit => listContent Item.content unit.items := by
  have step : Reads word (itemStep budget) 0
      (optionalContent fun entry => listContent Item.content entry.1) := by
    refine .get fun state => Reads.ite (.pure rfl) ?_ state
    exact (item_reads budget).bind fun _ => .pure rfl
  refine .skip .location fun start => (Reads.collect step budget).bind fun groups =>
    .skip .location fun _ => .pure ?_
  exact listContent_flatten _ _

theorem isAtEnd_of_collectWithin {α : Type} {step : Parse (Option (α × Bool))}
    (goesOn : Delivers step fun taken => ∀ entry ∈ taken, entry.2)
    (stops : ∀ state after, step.run state = .ok none after → after.isAtEnd) (budget : Nat)
    {state after : State} {values : List α}
    (runs : (collectWithin step budget).run state = .ok values after) : after.isAtEnd := by
  induction budget generalizing state values with
  | zero => cases runs
  | succ budget ih =>
    rw [collectWithin] at runs
    obtain ⟨taken, between, takes, runs⟩ := bind_ok runs
    rcases taken with none | ⟨item, last | further⟩
    · cases runs
      exact stops state _ takes
    · exact absurd (goesOn state _ _ takes _ rfl) Bool.false_ne_true
    · obtain ⟨others, behind, collects, runs⟩ := bind_ok runs
      cases runs
      exact ih collects

theorem isAtEnd_of_unit {budget : Nat} {state after : State} {result : CompilationUnit}
    (runs : (unit budget).run state = .ok result after) : after.isAtEnd := by
  obtain ⟨start, here, locates, runs⟩ := bind_ok runs
  obtain ⟨groups, behind, collects, runs⟩ := bind_ok runs
  cases runs
  refine isAtEnd_of_collectWithin ?_ ?_ budget collects
  · refine .after fun state => .ite (.pure fun entry member => nomatch member) ?_
    refine .after fun _ => .pure ?_
    intro entry member
    cases member
    rfl
  · intro state after runs
    obtain ⟨_, between, gets, runs⟩ := bind_ok runs
    cases gets
    split at runs
    · next atEnd =>
      cases runs
      exact atEnd
    · obtain ⟨items, between, reads, runs⟩ := bind_ok runs
      cases runs

end Grammar

theorem isAtEnd_of_compilationUnit {state after : State} {result : CompilationUnit}
    (runs : compilationUnit.run state = .ok result after) : after.isAtEnd := by
  obtain ⟨here, between, gets, runs⟩ := bind_ok runs
  cases gets
  exact Grammar.isAtEnd_of_unit runs

theorem compilationUnit_reads {word : String → Prop} :
    Reads word compilationUnit 0 fun unit => listContent Item.content unit.items :=
  .budgeted Grammar.unit_reads

theorem bodiesWritten_of_isAtEnd {state : State} (atEnd : state.isAtEnd) :
    bodiesWritten state.tokens = 0 := by
  obtain ⟨tokens, typedefs, fileEnd⟩ := state
  cases tokens with
  | nil => rfl
  | cons token rest =>
    unfold State.isAtEnd at atEnd
    split at atEnd
    · next none => cases none
    · next ends =>
      rw [bodiesWritten, Option.some.inj ends]
    · cases atEnd

end Parser

/-! ## Whole units -/

def CompilationUnit.bodies (unit : CompilationUnit) : List CType :=
  unit.nodes.filterMap Node.body?

theorem CompilationUnit.contents_nodes (unit : CompilationUnit) :
    Node.contents unit.nodes = listContent Item.content unit.items :=
  Node.contents_flatMap _ _

theorem CompilationUnit.covers_of_parse (word : String → Prop) {text file : String}
    {typedefs : List String} {tokens : List Token} {unit : CompilationUnit}
    (lexes : Lexer.tokenize text file = .ok tokens)
    (parses : CompilationUnit.parse text file typedefs = .ok unit) : ∃ rest, Parser.bodiesWritten rest = 0 ∧
      Parser.Covers word (Parser.State.ofTokens tokens typedefs).tokens rest 0 (Node.contents unit.nodes) := by
  obtain ⟨found, after, lexed, runs⟩ := exists_run_of_parse parses
  cases lexes.symm.trans lexed
  have reads : Parser.Reads word Parser.compilationUnit 0 fun unit =>
    listContent Item.content unit.items := Parser.compilationUnit_reads
  obtain ⟨more, same, covers⟩ := reads _ _ _ runs
  have whole : Node.contents unit.nodes = more :=
    unit.contents_nodes.trans (same.trans (zero_add more))
  rw [whole]
  exact ⟨after.tokens, Parser.bodiesWritten_of_isAtEnd (Parser.isAtEnd_of_compilationUnit runs), covers⟩

def Parser.bodiesInText (text file : String) : Nat :=
  match Lexer.tokenize text file with
  | .ok tokens => bodiesWritten (State.ofTokens tokens).tokens
  | .error _ => 0

open Text (IsWhole)

def Lexer.SpellsIdentifier (lexeme : Lexeme) : Prop :=
  ∀ name, lexeme = .identifier name → ∀ character ∈ name.toList, isIdentifierCharacter character

namespace Lexer

theorem number_spells : Delivers number SpellsIdentifier := by
  refine .after fun cursor => .after fun _ => .ite (.after fun _ => .failure _) (.pure ?_)
  intro name same
  unfold numberLexeme at same
  dsimp only at same
  split at same <;> cases same

theorem charLiteral_spells (leading : String) : Delivers (charLiteral leading) SpellsIdentifier :=
  .after fun _ => .ite (.after fun _ => .failure _) (.pure fun _ same => by cases same)

theorem stringLiteral_spells (leading : String) : Delivers (stringLiteral leading) SpellsIdentifier :=
  .after fun _ => .pure fun _ same => by cases same

theorem word_spells : Delivers word SpellsIdentifier := by
  refine .after fun cursor => .after fun _ => .after fun behind => ?_
  split
  · exact stringLiteral_spells _
  · exact charLiteral_spells _
  · split
    · exact .pure fun _ same => by cases same
    · refine .pure fun name same character member => ?_
      cases same
      rw [String.toList_ofList] at member
      exact List.mem_takeWhile_imp member

theorem mark_spells : Delivers mark SpellsIdentifier := by
  refine .after fun cursor => ?_
  split
  · exact .pure fun _ same => by cases same
  · split
    · exact .after fun _ => .pure fun _ same => by cases same
    · exact .after fun _ => .failure _

theorem lexeme_spells : Delivers lexeme SpellsIdentifier := by
  refine .after fun cursor => ?_
  split
  · exact .pure fun _ same => by cases same
  · exact .ite word_spells (.ite number_spells (.ite number_spells
      (.ite (charLiteral_spells _) (.ite (stringLiteral_spells _) mark_spells))))

theorem next_spells : Delivers next fun token => SpellsIdentifier token.lexeme :=
  .after fun _ => .after fun _ => .after fun _ => lexeme_spells.bind fun _ spells =>
    .after fun _ => .pure spells

theorem tokensWithin_spells (budget : Nat) :
    Delivers (tokensWithin budget) fun tokens => ∀ token ∈ tokens, SpellsIdentifier token.lexeme := by
  induction budget with
  | zero => exact .pure fun _ member => absurd member List.not_mem_nil
  | succ budget ih =>
    refine next_spells.bind fun token spells => .ite (.pure (List.forall_mem_singleton.mpr spells)) ?_
    exact ih.bind fun _ others => .pure (List.forall_mem_cons.mpr ⟨spells, others⟩)

theorem tokenize_spells {text file : String} {tokens : List Token}
    (lexes : tokenize text file = .ok tokens) : ∀ token ∈ tokens, SpellsIdentifier token.lexeme := by
  have yields : Delivers Lexer.tokens fun tokens => ∀ token ∈ tokens, SpellsIdentifier token.lexeme :=
    .after fun _ => tokensWithin_spells _
  unfold tokenize at lexes
  split at lexes
  · next result after runs =>
    cases lexes
    change checked Lexer.tokens (.ofText text file) = _ at runs
    unfold checked at runs
    split at runs
    · next whole cursor scanned =>
      split at runs
      · cases runs
      · cases runs
        exact yields _ _ _ scanned
    · cases runs
  · cases lexes

theorem isWhole_of_identifier {name : String}
    (spelled : ∀ character ∈ name.toList, isIdentifierCharacter character) : IsWhole name := by
  intro character member
  cases same : Text.separatesPieces character with
  | false => rfl
  | true =>
    have blank := spelled character member
    rw [beq_iff_eq.mp same] at blank
    cases blank

end Lexer

theorem Annotation.mem_of_mem_stripFrom {token : Token} {tokens : List Token} {last : Option Lexeme}
    {mode : Mode} (member : token ∈ stripFrom last mode tokens) : token ∈ tokens := by
  induction tokens generalizing last mode with
  | nil => exact member
  | cons first rest ih =>
    rw [stripFrom] at member
    split at member
    · exact List.mem_cons_of_mem _ (ih member)
    · rcases List.mem_cons.mp member with rfl | member
      · exact List.mem_cons_self
      · exact List.mem_cons_of_mem _ (ih member)

theorem CompilationUnit.isWhole_of_parse {text file : String} {typedefs : List String}
    {unit : CompilationUnit} (parses : CompilationUnit.parse text file typedefs = .ok unit) :
    ∀ name ∈ unit.identifiers, IsWhole name := by
  intro name member
  rw [identifiers, List.mem_eraseDups] at member
  cases lexes : Lexer.tokenize text file with
  | error failure =>
    unfold CompilationUnit.parse at parses
    rw [lexes] at parses
    cases parses
  | ok tokens =>
    obtain ⟨rest, -, covers⟩ := covers_of_parse IsWhole lexes parses
    refine (covers.words (fun token among name same => ?_)
      (fun _ known => absurd known (Multiset.notMem_zero _))).2 name ?_
    · exact Lexer.isWhole_of_identifier
        (Lexer.tokenize_spells lexes token ( Annotation.mem_of_mem_stripFrom among) name same)
    · rw [Node.contents_names]
      exact Multiset.mem_coe.mpr member

end InlineMacro
