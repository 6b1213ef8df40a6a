import InlineMacro.Proofs.Parser.Termination
import InlineMacro.Proofs.Token.Lexing

/-!
# The grammar comes to an end

The productions tied together. Between two tokens the calls go down a fixed order, in which each
production has a rank, so the budget that is needed grows with the number of tokens alone: no text and no
list of tokens uses it up.
-/

set_option autoImplicit false

namespace InlineMacro

namespace Parser

variable {α : Type} {budget : Nat}

/-- A production of some rank ends within a budget in front of as many tokens as the budget is meant
for. -/
def EndsWithin (budget rank taken : Nat) (parser : Parse α) : Prop :=
  ∀ bound, 32 * bound + rank ≤ budget → Ends bound taken parser

namespace EndsWithin

variable {rank taken : Nat} {parser : Parse α}

theorem none : EndsWithin 0 rank taken parser := by
  intro bound enough
  obtain rfl : bound = 0 := by omega
  exact .none taken parser

theorem some (ends : ∀ bound, 32 * (bound + 1) + rank ≤ budget → Ends (bound + 1) taken parser) :
    EndsWithin budget rank taken parser := by
  intro bound enough
  cases bound with
  | zero => exact .none taken parser
  | succ bound => exact ends bound enough

end EndsWithin

namespace Grammar

/-- Every production of declarators and expressions ends within a budget. The ranks go up from what stands
between two operators to what is made of it. -/
structure Ending (budget : Nat) : Prop where
  primary : EndsWithin budget 0 1 (primary budget)
  suffixes : ∀ operand, EndsWithin budget 0 0 (suffixes budget operand)
  suffixed : EndsWithin budget 1 1 (suffixed budget)
  unary : EndsWithin budget 2 1 (unary budget)
  cast : EndsWithin budget 3 1 (cast budget)
  binary : ∀ level ≤ binaryLevels, EndsWithin budget (4 + (binaryLevels - level)) 1 (binary budget level)
  conditional : EndsWithin budget 15 1 (conditional budget)
  assignment : EndsWithin budget 16 1 (assignment budget)
  expression : EndsWithin budget 17 1 (expression budget)
  initializer : EndsWithin budget 18 1 (initializer budget)
  initializerItem : EndsWithin budget 19 1 (initializerItem budget)
  specifiersOf : EndsWithin budget 0 1 (specifiersOf budget)
  bodied : ∀ kind, EndsWithin budget 16 0 (bodied budget kind)
  declarator : EndsWithin budget 0 0 (declarator budget)
  parameters : EndsWithin budget 1 0 (parameters budget)
  typeName : EndsWithin budget 1 1 (typeName budget)

theorem binary_ends (ih : Ending budget) {level : Nat} (isLevel : level ≤ binaryLevels) :
    EndsWithin (budget + 1) (4 + (binaryLevels - level)) 1 (binary (budget + 1) level) := by
  refine .some fun bound enough => ?_
  intro state small
  refine .ite (fun _ => ih.cast (bound + 1) (by omega) state small) fun notLast => ?_
  have lower : level + 1 ≤ binaryLevels := by omega
  exact binaryForm_ends level (ih.binary (level + 1) lower (bound + 1) (by omega)) (by omega) state small

theorem ending (budget : Nat) : Ending budget := by
  induction budget with
  | zero =>
    exact {
      primary := .none
      suffixes := fun _ => .none
      suffixed := .none
      unary := .none
      cast := .none
      binary := fun _ _ => .none
      conditional := .none
      assignment := .none
      expression := .none
      initializer := .none
      initializerItem := .none
      specifiersOf := .none
      bodied := fun _ => .none
      declarator := .none
      parameters := .none
      typeName := .none }
  | succ budget ih =>
    exact {
      primary := .some fun bound enough => primaryForm_ends (ih.expression bound (by omega))
      suffixes := fun operand => .some fun bound enough =>
        suffixesForm_ends (ih.expression bound (by omega)) (ih.assignment bound (by omega))
          (ih.typeName bound (by omega)) (by omega) operand
      suffixed := .some fun bound enough state small =>
        .call (ih.primary (bound + 1) (by omega)) small fun operand after fewer =>
          .last (ih.suffixes operand bound (by omega)) (by omega) fun value left less => by omega
      unary := .some fun bound enough =>
        unaryForm_ends (ih.unary bound (by omega)) (ih.cast bound (by omega))
          (ih.suffixed (bound + 1) (by omega)) (ih.typeName bound (by omega))
          (ih.initializer bound (by omega)) fun operand => ih.suffixes operand bound (by omega)
      cast := .some fun bound enough =>
        castForm_ends (ih.unary (bound + 1) (by omega)) (ih.cast bound (by omega))
          (ih.typeName bound (by omega)) (ih.initializer bound (by omega)) fun operand =>
            ih.suffixes operand bound (by omega)
      binary := fun level isLevel => binary_ends ih isLevel
      conditional := .some fun bound enough =>
        conditionalForm_ends (ih.binary 0 (Nat.zero_le _) (bound + 1) (by unfold binaryLevels; omega))
          (ih.expression bound (by omega)) (ih.conditional bound (by omega))
      assignment := .some fun bound enough =>
        assignmentForm_ends (ih.conditional (bound + 1) (by omega)) (ih.assignment bound (by omega))
      expression := .some fun bound enough =>
        expressionForm_ends (ih.assignment (bound + 1) (by omega)) (by omega)
      initializer := .some fun bound enough =>
        initializerForm_ends (ih.assignment (bound + 1) (by omega)) (ih.initializerItem bound (by omega))
          (by omega)
      initializerItem := .some fun bound enough =>
        initializerItemForm_ends (ih.conditional bound (by omega)) (ih.initializer (bound + 1) (by omega))
          (by omega)
      specifiersOf := .some fun bound enough =>
        specifiers_ends (fun kind => ih.bodied kind bound (by omega)) (by omega)
      bodied := fun kind => by
        intro bound enough
        cases kind with
        | record kind =>
          exact recordForm_ends kind (ih.specifiersOf bound (by omega)) (ih.declarator bound (by omega))
            (ih.conditional bound (by omega)) (by omega)
        | enumeration => exact enumerationForm_ends (ih.conditional bound (by omega)) (by omega)
      declarator := .some fun bound enough =>
        declaratorForm_ends (ih.declarator bound (by omega)) (ih.assignment bound (by omega))
          (ih.parameters bound (by omega)) (by omega)
      parameters := .some fun bound enough =>
        parameterList_ends (ih.specifiersOf (bound + 1) (by omega)) (ih.declarator bound (by omega))
          (by omega)
      typeName := .some fun bound enough =>
        typeNameForm_ends (ih.specifiersOf (bound + 1) (by omega)) (ih.declarator bound (by omega)) }

theorem localDeclaration_ends (budget : Nat) : EndsWithin budget 19 1 (localDeclaration budget) := by
  cases budget with
  | zero => exact .none
  | succ budget =>
    have inner := ending budget
    exact .some fun bound enough =>
      localDeclarationForm_ends (inner.specifiersOf (bound + 1) (by omega))
        (inner.declarator bound (by omega)) (inner.initializer bound (by omega)) (by omega)

theorem statement_ends (budget : Nat) :
    EndsWithin budget 20 1 (statement budget) ∧ EndsWithin budget 0 1 (block budget) := by
  induction budget with
  | zero => exact ⟨.none, .none⟩
  | succ budget ih =>
    obtain ⟨statements, blocks⟩ := ih
    have inner := ending budget
    constructor
    · exact .some fun bound enough =>
        statementForm_ends (inner.expression (bound + 1) (by omega)) (inner.conditional bound (by omega))
          (localDeclaration_ends budget (bound + 1) (by omega)) (blocks (bound + 1) (by omega))
          (statements bound (by omega))
    · exact .some fun bound enough => blockForm_ends (statements bound (by omega)) (by omega)

theorem functionForm_ends (given : Specifiers) (start : Location) (name : String) (result : CType)
    (parameters : List Parameter) (isVariadic : Bool) (budget : Nat) :
    EndsWithin budget 0 1 (functionForm given start name result parameters isVariadic budget) :=
  fun bound enough _ small =>
    .call ((statement_ends budget).2 bound enough) small fun _ _ fewer => .spanFrom (.pure fewer)

theorem item_ends (budget : Nat) : EndsWithin budget 20 1 (item budget) := by
  have inner := ending budget
  refine .some fun bound enough state small => .location ?_
  refine .acceptMark (fun after left => .pure (by omega)) ?_
  refine .call (inner.specifiersOf (bound + 1) (by omega)) small fun given between fewer => ?_
  refine .acceptMark (fun after left => .spanFrom (.pure (by omega))) ?_
  refine .call (inner.declarator bound (by omega)) (by omega) fun declared after less => .get ?_
  split
  · split
    · exact .fault rfl
    · refine .call (functionForm_ends given _ _ _ _ _ budget bound (by omega)) (by omega)
        fun function behind last => ?_
      exact .pure (by omega)
  · refine .call (initDeclarators_ends given _ declared (inner.declarator bound (by omega))
      (inner.initializer bound (by omega)) (by omega)) (by omega) fun declarations behind last => ?_
    exact .pure (by omega)

theorem unit_ends (budget : Nat) : EndsWithin budget 20 0 (unit budget) := by
  refine .some fun bound enough state small => .location ?_
  have step : StepEnds (bound + 1) (itemStep budget) := by
    intro state small
    refine .get (.ite (fun _ => .pure (Nat.le_refl _)) fun _ => ?_)
    exact .call (item_ends budget (bound + 1) enough) small fun items after fewer => .pure fewer
  exact .call (.collectWithin step (by omega)) small fun items after less => .location (.pure less)

end Grammar

/-! ## Every list of tokens -/

abbrev Progresses (state : State) (parser : Parse α) : Prop :=
  Settles state parser fun _ left => left < state.tokens.length

/-- In a state all productions end within a budget, and each that has to find something takes a token. -/
structure AllEnd (state : State) (budget : Nat) : Prop where
  expression : Progresses state (Grammar.expression budget)
  assignment : Progresses state (Grammar.assignment budget)
  conditional : Progresses state (Grammar.conditional budget)
  binary : ∀ level ≤ binaryLevels, Progresses state (Grammar.binary budget level)
  cast : Progresses state (Grammar.cast budget)
  unary : Progresses state (Grammar.unary budget)
  suffixed : Progresses state (Grammar.suffixed budget)
  primary : Progresses state (Grammar.primary budget)
  initializer : Progresses state (Grammar.initializer budget)
  specifiers : Progresses state (Grammar.specifiersOf budget)
  typeName : Progresses state (Grammar.typeName budget)
  declarator : Settles state (Grammar.declarator budget) fun _ left => left ≤ state.tokens.length
  localDeclaration : Progresses state (Grammar.localDeclaration budget)
  statement : Progresses state (Grammar.statement budget)
  block : Progresses state (Grammar.block budget)
  item : Progresses state (Grammar.item budget)
  unit : Settles state (Grammar.unit budget) fun _ left => left ≤ state.tokens.length

theorem allEnd (state : State) (more : Nat) : AllEnd state (state.budget + more) := by
  have enough {rank : Nat} (low : rank ≤ 32) :
      32 * (state.tokens.length + 1) + rank ≤ state.budget + more := by
    unfold State.budget
    omega
  have each {α : Type} {rank taken : Nat} {parser : Parse α}
      (ends : EndsWithin (state.budget + more) rank taken parser) (low : rank ≤ 32) :
      Settles state parser fun _ left => left + taken ≤ state.tokens.length :=
    ends (state.tokens.length + 1) (enough low) state (Nat.lt_succ_self _)
  have inner := Grammar.ending (state.budget + more)
  exact {
    expression := each inner.expression (by decide)
    assignment := each inner.assignment (by decide)
    conditional := each inner.conditional (by decide)
    binary := fun level isLevel => each (inner.binary level isLevel) (by unfold binaryLevels; omega)
    cast := each inner.cast (by decide)
    unary := each inner.unary (by decide)
    suffixed := each inner.suffixed (by decide)
    primary := each inner.primary (by decide)
    initializer := each inner.initializer (by decide)
    specifiers := each inner.specifiersOf (by decide)
    typeName := each inner.typeName (by decide)
    declarator := each inner.declarator (by decide)
    localDeclaration := each (Grammar.localDeclaration_ends _) (by decide)
    statement := each (Grammar.statement_ends _).1 (by decide)
    block := each (Grammar.statement_ends _).2 (by decide)
    item := each (Grammar.item_ends _) (by decide)
    unit := each (Grammar.unit_ends _) (by decide) }

end Parser

/-- Both halves of the front end come to an end. The next token is the end of the file or takes a character,
and the two loops of the lexer go on for as long as they find something, with no other bound. In front of
any tokens the parser ends by what it finds, and what it succeeds with has taken tokens. -/
theorem scanning_and_parsing_end :
    (∀ cursor : Cursor,
      (OnSuccess Lexer.next cursor fun token after =>
        token.lexeme = .endOfFile ∨ after.rest.length < cursor.rest.length) ∧
      Lexer.skipTrivia.run cursor =
        (Lexer.skipOne >>= fun goesOn => if goesOn then Lexer.skipTrivia else pure ()).run cursor ∧
      Lexer.tokens.run cursor = EStateM.run (do
        let token ← Lexer.next
        if token.lexeme = .endOfFile then pure [token] else return token :: (← Lexer.tokens)) cursor) ∧
    ∀ (state : Parser.State) (more : Nat), Parser.AllEnd state (state.budget + more) := by
  refine ⟨fun cursor => ⟨?_, Lexer.skipTrivia_run cursor, Lexer.tokens_run cursor⟩, Parser.allEnd⟩
  exact Lexer.next_scanned.mono fun token after scanned => scanned.imp And.left And.right

end InlineMacro
