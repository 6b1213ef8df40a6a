import InlineMacro.Parser.Grammar

/-!
# Parsers that come to an end

A production that succeeds takes tokens, so a loop over it ends when the tokens do, and a budget that is
larger than their number is not used up. What the tokens are does not matter for that: the list can be
cut off anywhere. The rules follow a parser from one state, for how many tokens are left decides how much
of the budget is needed behind it.

The productions take the parsers of their parts as arguments, and so do the lemmas about them. A part
that a production starts with has to end in front of as many tokens as the production itself; for any
other part one token less will do.
-/

set_option autoImplicit false

namespace InlineMacro

def Failure.isExhaustion : Failure → Bool
  | .syntactic _ .budgetExhausted => true
  | _ => false

namespace Parser

variable {α β : Type}

/-- In a state a parser does not run out of its budget; what it comes to and the number of tokens behind
it have a property. -/
def Settles (state : State) (parser : Parse α) (post : α → Nat → Prop) : Prop :=
  match parser.run state with
  | .ok value after => post value after.tokens.length
  | .error failure _ => failure.isExhaustion = false

/-- In front of fewer tokens than a bound a parser does not run out of its budget, and takes at least some
number of them. -/
def Ends (bound taken : Nat) (parser : Parse α) : Prop :=
  ∀ state : State, state.tokens.length < bound →
    Settles state parser fun _ left => left + taken ≤ state.tokens.length

namespace Settles

variable {state : State} {parser : Parse α} {post middle : α → Nat → Prop}

theorem pure {value : α} (holds : post value state.tokens.length) :
    Settles state (Pure.pure value) post := holds

theorem given {value : α} {next : α → Parse β} {result : β → Nat → Prop}
    (rest : Settles state (next value) result) : Settles state (Pure.pure value >>= next) result := rest

theorem bind {next : α → Parse β} {result : β → Nat → Prop} (first : Settles state parser middle)
    (rest : ∀ value after, middle value after.tokens.length → Settles after (next value) result) :
    Settles state (parser >>= next) result := by
  unfold Settles at first ⊢
  rw [EStateM.run_bind]
  cases run : parser.run state with
  | ok value after =>
    rw [run] at first
    exact rest value after first
  | error failure after =>
    rw [run] at first
    exact first

theorem mono {weaker : α → Nat → Prop} (settles : Settles state parser post)
    (weakens : ∀ value left, post value left → weaker value left) : Settles state parser weaker := by
  unfold Settles at settles ⊢
  split
  · next value after run =>
    rw [run] at settles
    exact weakens value _ settles
  · next failure after run =>
    rw [run] at settles
    exact settles

theorem map {change : α → β} {result : β → Nat → Prop}
    (settles : Settles state parser fun value left => result (change value) left) :
    Settles state (change <$> parser) result := by
  rw [map_eq_pure_bind]
  exact settles.bind fun _ _ holds => .pure holds

theorem get {next : State → Parse α} (rest : Settles state (next state) post) :
    Settles state (MonadState.get >>= next) post := rest

theorem modify {change : State → State} {next : PUnit → Parse α}
    (rest : Settles (change state) (next ⟨⟩) post) : Settles state (modify change >>= next) post := rest

theorem location {next : Location → Parse α} (rest : Settles state (next state.location) post) :
    Settles state (Parser.location >>= next) post := rest

theorem spanFrom {start : Location} {next : Span → Parse α}
    (rest : Settles state (next ⟨start, state.location⟩) post) :
    Settles state (Parser.spanFrom start >>= next) post := rest

theorem ite {condition : Prop} [Decidable condition] {other : Parse α}
    (first : condition → Settles state parser post) (second : ¬condition → Settles state other post) :
    Settles state (if condition then parser else other) post := by
  split
  · next holds => exact first holds
  · next fails => exact second fails

theorem failure {failure : Failure} (other : failure.isExhaustion = false) :
    Settles state (throw failure : Parse α) post := other

theorem fault {location : Location} {cause : SyntaxFault}
    (other : (Failure.syntactic location cause).isExhaustion = false) :
    Settles state (Parser.fault location cause : Parse α) post := other

theorem stops {location : Location} {cause : SyntaxFault} {next : α → Parse β} {result : β → Nat → Prop}
    (other : (Failure.syntactic location cause).isExhaustion = false) :
    Settles state (Parser.fault location cause >>= next) result := other

theorem unexpected {wanted : String} {found : Option Token} :
    Settles state (Parser.unexpected wanted found : Parse α) post := by
  cases found <;> rfl

theorem call {next : α → Parse β} {result : β → Nat → Prop} {bound taken : Nat}
    (ends : Ends bound taken parser) (small : state.tokens.length < bound)
    (rest : ∀ value after, after.tokens.length + taken ≤ state.tokens.length →
      Settles after (next value) result) : Settles state (parser >>= next) result :=
  (ends state small).bind rest

theorem last {bound taken : Nat} (ends : Ends bound taken parser) (small : state.tokens.length < bound)
    (holds : ∀ value left, left + taken ≤ state.tokens.length → post value left) :
    Settles state parser post :=
  (ends state small).mono holds

theorem changed {γ : Type} {change : α → γ} {next : γ → Parse β} {result : β → Nat → Prop}
    (rest : Settles state (parser >>= fun value => next (change value)) result) :
    Settles state (change <$> parser >>= next) result := by
  rw [bind_map_left]
  exact rest

/-! ### Single tokens -/

theorem advance {next : Option Token → Parse β} {result : β → Nat → Prop}
    (taken : ∀ token after, after.tokens.length + 1 = state.tokens.length →
      Settles after (next (some token)) result)
    (none : Settles state (next none) result) : Settles state (Parser.advance >>= next) result := by
  obtain ⟨tokens, typedefs, fileEnd⟩ := state
  cases tokens with
  | nil => exact none
  | cons token tokens => exact taken token ⟨tokens, typedefs, fileEnd⟩ rfl

theorem take {next : Unit → Parse β} {result : β → Nat → Prop} {lexeme : Lexeme}
    (ahead : state.lexeme? = some lexeme)
    (rest : ∀ after, after.tokens.length + 1 = state.tokens.length → Settles after (next ()) result) :
    Settles state (discard Parser.advance >>= next) result := by
  obtain ⟨tokens, typedefs, fileEnd⟩ := state
  cases tokens with
  | nil => cases ahead
  | cons token tokens => exact rest ⟨tokens, typedefs, fileEnd⟩ rfl

theorem skip {next : Unit → Parse β} {result : β → Nat → Prop}
    (rest : ∀ after, after.tokens.length ≤ state.tokens.length → Settles after (next ()) result) :
    Settles state (discard Parser.advance >>= next) result :=
  .changed (.advance (fun _ after left => rest after (by omega)) (rest state (Nat.le_refl _)))

theorem accepting {accept : Parse Bool} {wanted : Bool} (lexeme : Lexeme) {next : Bool → Parse β}
    {result : β → Nat → Prop} (isAhead : wanted → state.lexeme? = some lexeme)
    (same : accept.run state = EStateM.run (if wanted then do
        discard Parser.advance
        Pure.pure true
      else Pure.pure false) state)
    (taken : ∀ after, after.tokens.length + 1 = state.tokens.length → Settles after (next true) result)
    (kept : Settles state (next false) result) : Settles state (accept >>= next) result := by
  unfold Settles
  rw [EStateM.run_bind, same]
  cases isWanted : wanted with
  | false => exact kept
  | true =>
    obtain ⟨tokens, typedefs, fileEnd⟩ := state
    cases tokens with
    | nil => cases isAhead isWanted
    | cons token tokens => exact taken ⟨tokens, typedefs, fileEnd⟩ rfl

theorem acceptMark {mark : Mark} {next : Bool → Parse β} {result : β → Nat → Prop}
    (taken : ∀ after, after.tokens.length + 1 = state.tokens.length → Settles after (next true) result)
    (kept : Settles state (next false) result) : Settles state (Parser.acceptMark mark >>= next) result :=
  accepting (.mark mark) beq_iff_eq.mp rfl taken kept

variable {keyword : Keyword}

theorem acceptKeyword {next : Bool → Parse β} {result : β → Nat → Prop}
    (taken : ∀ after, after.tokens.length + 1 = state.tokens.length → Settles after (next true) result)
    (kept : Settles state (next false) result) :
    Settles state (Parser.acceptKeyword keyword >>= next) result :=
  accepting (.keyword keyword) beq_iff_eq.mp rfl taken kept

theorem optionalKeyword {next : Bool → Parse β} {result : β → Nat → Prop}
    (rest : ∀ accepted after, after.tokens.length ≤ state.tokens.length →
      Settles after (next accepted) result) : Settles state (Parser.acceptKeyword keyword >>= next) result :=
  acceptKeyword (fun after left => rest true after (by omega)) (rest false state (Nat.le_refl _))

theorem acceptIdentifier {next : Option String → Parse β} {result : β → Nat → Prop}
    (rest : ∀ name after, after.tokens.length ≤ state.tokens.length → Settles after (next name) result) :
    Settles state (Parser.acceptIdentifier >>= next) result := by
  have settles : Settles state Parser.acceptIdentifier fun _ left => left ≤ state.tokens.length := by
    refine .get ?_
    split
    · next ahead => exact .take ahead fun after left => .pure (by omega)
    · exact .pure (Nat.le_refl _)
  exact settles.bind rest

theorem acceptMarkAs {meaning : Mark → Option α} {next : Option α → Parse β} {result : β → Nat → Prop}
    (taken : ∀ value after, after.tokens.length + 1 = state.tokens.length →
      Settles after (next (some value)) result)
    (kept : ∀ after, after.tokens.length = state.tokens.length → Settles after (next none) result) :
    Settles state (Parser.acceptMarkAs meaning >>= next) result := by
  have settles : Settles state (Parser.acceptMarkAs meaning) fun found left =>
      left + (if found.isSome then 1 else 0) = state.tokens.length := by
    refine .get ?_
    split
    · next ahead =>
      split
      · exact .take ahead fun after left => .pure left
      · exact .pure rfl
    · exact .pure rfl
  refine settles.bind fun found after left => ?_
  cases found with
  | none => exact kept after left
  | some value => exact taken value after left

variable {context : String}

theorem expect {lexeme : Lexeme} {next : Unit → Parse β} {result : β → Nat → Prop}
    (rest : ∀ after, after.tokens.length + 1 = state.tokens.length → Settles after (next ()) result) :
    Settles state (Parser.expect lexeme context >>= next) result := by
  have settles : Settles state (Parser.expect lexeme context) fun _ left =>
      left + 1 = state.tokens.length := by
    refine .advance (fun token after left => .ite (fun _ => .pure left) fun _ => .unexpected) ?_
    exact .ite (fun none => by cases none) fun _ => .unexpected
  exact settles.bind fun _ after left => rest after left

theorem expectMark {mark : Mark} {next : Unit → Parse β} {result : β → Nat → Prop}
    (rest : ∀ after, after.tokens.length + 1 = state.tokens.length → Settles after (next ()) result) :
    Settles state (Parser.expectMark mark context >>= next) result := expect rest

theorem expectKeyword {next : Unit → Parse β} {result : β → Nat → Prop}
    (rest : ∀ after, after.tokens.length + 1 = state.tokens.length → Settles after (next ()) result) :
    Settles state (Parser.expectKeyword keyword context >>= next) result := expect rest

theorem expectIdentifier {next : String → Parse β} {result : β → Nat → Prop}
    (rest : ∀ name after, after.tokens.length + 1 = state.tokens.length → Settles after (next name) result) :
    Settles state (Parser.expectIdentifier context >>= next) result := by
  have settles : Settles state (Parser.expectIdentifier context) fun _ left =>
      left + 1 = state.tokens.length := by
    refine .advance (fun token after left => ?_) .unexpected
    split
    · exact .pure left
    · exact .unexpected
  exact settles.bind fun name after left => rest name after left

end Settles

/-! ### Runs of tokens -/

theorem length_qualifierRun_le (qualifiers : Qualifiers) (tokens : List Token) :
    (qualifierRun qualifiers tokens).2.length ≤ tokens.length := by
  induction tokens generalizing qualifiers with
  | nil => exact Nat.le_refl _
  | cons token rest ih =>
    rw [qualifierRun]
    split
    · split
      · next more _ => exact Nat.le_succ_of_le (ih more)
      · exact Nat.le_refl _
    · exact Nat.le_refl _

theorem length_stringRun_le (tokens : List Token) : (stringRun tokens).2.length ≤ tokens.length := by
  induction tokens with
  | nil => exact Nat.le_refl _
  | cons token rest ih =>
    rw [stringRun]
    split
    · exact Nat.le_succ_of_le ih
    · exact Nat.le_refl _

namespace Settles

variable {state : State} {parser : Parse α} {post middle : α → Nat → Prop}

theorem qualifiers {next : Qualifiers → Parse β} {result : β → Nat → Prop}
    (rest : ∀ found after, after.tokens.length ≤ state.tokens.length → Settles after (next found) result) :
    Settles state (Parser.qualifiers >>= next) result :=
  rest _ ⟨_, _, _⟩ (length_qualifierRun_le _ _)

theorem stringPieces {next : List String → Parse β} {result : β → Nat → Prop}
    (rest : ∀ found after, after.tokens.length ≤ state.tokens.length → Settles after (next found) result) :
    Settles state (Parser.stringPieces >>= next) result :=
  rest _ ⟨_, _, _⟩ (length_stringRun_le _)

/-! ### Names of types -/

theorem addTypedef {name : String} {next : Unit → Parse β} {result : β → Nat → Prop}
    (rest : ∀ after, after.tokens.length = state.tokens.length → Settles after (next ()) result) :
    Settles state (Parser.addTypedef name >>= next) result := by
  refine .modify (rest _ ?_)
  split <;> rfl

theorem removeTypedef {name : String} {next : Unit → Parse β} {result : β → Nat → Prop}
    (rest : ∀ after, after.tokens.length = state.tokens.length → Settles after (next ()) result) :
    Settles state (Parser.removeTypedef name >>= next) result :=
  .modify (rest _ rfl)

theorem inScope (settles : Settles state parser post) : Settles state (Parser.inScope parser) post :=
  .get (settles.bind fun _ _ holds => .modify (.pure holds))

end Settles

/-! ### Loops -/

def StepEnds (bound : Nat) (step : Parse (Option (α × Bool))) : Prop :=
  ∀ state : State, state.tokens.length < bound → Settles state step fun taken left =>
    left + (if taken.any Prod.snd then 1 else 0) ≤ state.tokens.length

theorem Ends.collectWithin {bound : Nat} {step : Parse (Option (α × Bool))} (steps : StepEnds bound step)
    {budget : Nat} (enough : bound ≤ budget) : Ends bound 0 (Parser.collectWithin step budget) := by
  intro state small
  induction budget generalizing bound state with
  | zero => omega
  | succ budget ih =>
    refine (steps state small).bind fun taken between left => ?_
    rcases taken with none | ⟨item, last | further⟩
    · exact .pure left
    · exact .pure left
    · have shorter : between.tokens.length + 1 ≤ state.tokens.length := left
      have fewer : StepEnds (bound - 1) step := fun state small => steps state (by omega)
      refine (ih fewer (by omega) between (by omega)).bind fun others after left => .pure ?_
      omega

def RoundEnds (bound : Nat) (step : α → Parse (Option α)) : Prop :=
  ∀ (value : α) (state : State), state.tokens.length < bound → Settles state (step value) fun next left =>
    left + (if next.isSome then 1 else 0) ≤ state.tokens.length

theorem Settles.iterateWithin {bound : Nat} {step : α → Parse (Option α)} (steps : RoundEnds bound step)
    {budget : Nat} (enough : bound ≤ budget) (value : α) {state : State} (small : state.tokens.length < bound) :
    Settles state (Parser.iterateWithin step budget value) fun result left =>
      left ≤ state.tokens.length ∧ (result = value ∨ left < state.tokens.length) := by
  induction budget generalizing bound state value with
  | zero => omega
  | succ budget ih =>
    refine (steps value state small).bind fun next between left => ?_
    cases next with
    | none => exact .pure ⟨left, .inl rfl⟩
    | some further =>
      have shorter : between.tokens.length + 1 ≤ state.tokens.length := left
      have fewer : RoundEnds (bound - 1) step := fun value state small => steps value state (by omega)
      refine (ih fewer (by omega) further (by omega)).mono fun result left done => ?_
      exact ⟨by omega, .inr (by omega)⟩

theorem Ends.iterateWithin {bound : Nat} {step : α → Parse (Option α)} (steps : RoundEnds bound step)
    {budget : Nat} (enough : bound ≤ budget) (value : α) :
    Ends bound 0 (Parser.iterateWithin step budget value) :=
  fun _ small => (Settles.iterateWithin steps enough value small).mono fun _ _ done => done.1

/-! ### Bounds -/

theorem Ends.none (taken : Nat) (parser : Parse α) : Ends 0 taken parser :=
  fun _ small => absurd small (Nat.not_lt_zero _)

theorem Ends.mono {bound smaller taken fewer : Nat} {parser : Parse α} (ends : Ends bound taken parser)
    (isSmaller : smaller ≤ bound) (isFewer : fewer ≤ taken) : Ends smaller fewer parser :=
  fun state small => (ends state (by omega)).mono fun _ _ left => by omega

variable {bound budget : Nat} {expression assignment conditional unary cast suffixed : Parse Expr}
  {initializer item : Parse Initializer} {typeName : Parse CType} {suffixes : Expr → Parse Expr}
  {specifiers : Parse Specifiers} {declarator : Parse Declarator} {parameters : Parse Derivation}

/-! ## Specifiers -/

theorem specifierStep_ends {bodied : BodiedType → Parse CType} (types : ∀ kind, Ends bound 0 (bodied kind)) :
    RoundEnds (bound + 1) (specifierStep bodied) := by
  intro read state small
  refine .get ?_
  split
  · next ahead =>
    split
    · next kind _ =>
      refine .ite (fun _ => .pure (Nat.le_refl _)) fun _ => .take ahead fun after left => ?_
      exact .call (types kind) (by omega) fun type behind fewer => .pure (show _ + 1 ≤ _ by omega)
    · split
      · refine .ite (fun _ => .take ahead fun after left => .pure (show _ + 1 ≤ _ by omega)) fun _ => ?_
        exact .failure rfl
      · exact .pure (Nat.le_refl _)
  · next ahead =>
    refine .ite (fun _ => .take ahead fun after left => ?_) fun _ => .pure (Nat.le_refl _)
    exact .pure (show _ + 1 ≤ _ by omega)
  · exact .pure (Nat.le_refl _)

theorem specifiers_ends {bodied : BodiedType → Parse CType} (types : ∀ kind, Ends bound 0 (bodied kind))
    (enough : bound + 1 ≤ budget) : Ends (bound + 1) 1 (Parser.specifiers bodied budget) := by
  intro state small
  refine .location ?_
  refine (Settles.iterateWithin (specifierStep_ends types) enough _ small).bind fun read after done => ?_
  refine .ite (fun _ => .get ?_) fun some => .pure ?_
  · split
    · exact .unexpected
    · exact .fault rfl
  · rcases done.2 with rfl | fewer
    · exact absurd rfl some
    · exact fewer

/-! ## Declarators -/

theorem arraySize_ends (size : Ends bound 1 assignment) : Ends bound 0 (arraySize assignment) := by
  intro state small
  have closes : ∀ (size : Option Expr) (after : State), after.tokens.length ≤ state.tokens.length →
      Settles after (do
        expectMark .rightBracket "array declarator"
        pure size) fun _ left => left + 0 ≤ state.tokens.length :=
    fun size after fewer => .expectMark fun behind left => .pure (by omega)
  refine .changed (.optionalKeyword fun _ after fewer => ?_)
  refine .changed (.qualifiers fun _ behind less => ?_)
  refine .get ?_
  refine .ite (fun _ => closes _ _ (by omega)) fun _ => .ite (fun star => ?_) fun _ => ?_
  · have ahead : behind.isAtMark .star := (Bool.and_eq_true_iff.mp star).1
    exact .take (beq_iff_eq.mp ahead) fun beyond left => closes _ _ (by omega)
  · exact .changed (.call size (by omega) fun value beyond left => closes _ _ (by omega))

theorem parameterStep_ends (given : Ends (bound + 1) 1 specifiers) (declared : Ends bound 0 declarator) :
    StepEnds (bound + 1) (parameterStep specifiers declarator) := by
  intro state small
  refine .acceptMark (fun after left => .pure (show _ + 0 ≤ _ by omega)) ?_
  refine .location (.call given small fun words between fewer => ?_)
  refine .call declared (by omega) fun name behind less => .spanFrom ?_
  refine .acceptMark (fun after left => .pure (show _ + 1 ≤ _ by omega)) (.pure (show _ + 0 ≤ _ by omega))

theorem parameterList_ends (given : Ends (bound + 1) 1 specifiers) (declared : Ends bound 0 declarator)
    (enough : bound + 1 ≤ budget) : Ends (bound + 1) 0 (parameterList specifiers declarator budget) := by
  intro state small
  refine .acceptMark (fun after left => .pure (by omega)) (.get ?_)
  have listed : Settles state (do
      let entries ← collectWithin (parameterStep specifiers declarator) budget
      expectMark .rightParen "parameter list"
      pure (Derivation.function (entries.filterMap id) (entries.any Option.isNone)))
      fun _ left => left + 0 ≤ state.tokens.length :=
    .call (.collectWithin (parameterStep_ends given declared) enough) small fun entries between fewer =>
      .expectMark fun behind left => .pure (by omega)
  split
  · exact .ite (fun _ => .stops rfl) fun _ => listed
  · exact listed

theorem derivationStep_ends (size : Ends bound 1 assignment) (declared : Ends bound 0 parameters) :
    StepEnds (bound + 1) (derivationStep assignment parameters) := by
  intro state small
  refine .acceptMark (fun after left => ?_) (.acceptMark (fun after left => ?_) (.pure (Nat.le_refl _)))
  · exact .call (arraySize_ends size) (by omega) fun found behind less => .pure (show _ + 1 ≤ _ by omega)
  · exact .call declared (by omega) fun found behind less => .pure (show _ + 1 ≤ _ by omega)

theorem pointerStep_ends : StepEnds bound pointerStep := by
  intro state _
  refine .acceptMark (fun after left => ?_) (.pure (Nat.le_refl _))
  exact .qualifiers fun found behind less => .pure (show _ + 1 ≤ _ by omega)

theorem declaratorCore_ends (nested : Ends bound 0 declarator) :
    Ends (bound + 1) 0 (declaratorCore declarator) := by
  intro state small
  refine .get (.ite (fun opens => ?_) fun _ => .acceptIdentifier fun name after less => .pure less)
  have ahead : state.isAtMark .leftParen := (Bool.and_eq_true_iff.mp opens).1
  refine .take (beq_iff_eq.mp ahead) fun after left => ?_
  exact .call nested (by omega) fun inner between less => .expectMark fun behind fewer => .pure (by omega)

theorem declaratorForm_ends (nested : Ends bound 0 declarator) (size : Ends bound 1 assignment)
    (declared : Ends bound 0 parameters) (enough : bound + 1 ≤ budget) :
    Ends (bound + 1) 0 (declaratorForm declarator assignment parameters budget) := by
  intro state small
  refine .call (.collectWithin pointerStep_ends enough) small fun pointers between less => ?_
  refine .call (declaratorCore_ends nested) (by omega) fun core after fewer => ?_
  exact .call (.collectWithin (derivationStep_ends size declared) enough) (by omega)
    fun layers behind left => .pure (by omega)

theorem typeNameForm_ends (given : Ends (bound + 1) 1 specifiers) (declared : Ends bound 0 declarator) :
    Ends (bound + 1) 1 (typeNameForm specifiers declarator) := by
  intro state small
  refine .location (.call given small fun words between fewer => .ite (fun _ => .stops rfl) fun _ => ?_)
  refine .call declared (by omega) fun found after less => ?_
  split
  · exact .fault rfl
  · exact .pure (by omega)

/-! ## Types with bodies -/

theorem fieldForm_ends (base : CType) (declared : Ends bound 0 declarator) (width : Ends bound 1 conditional) :
    Ends bound 0 (fieldForm base declarator conditional) := by
  intro state small
  have widened : ∀ (name : Declarator) (after : State), after.tokens.length ≤ state.tokens.length →
      Settles after (do
        let width ← if ← acceptMark .colon then some <$> conditional else pure none
        pure (Field.mk name.name (name.typeFrom base) width)) fun _ left => left + 0 ≤ state.tokens.length := by
    intro name after less
    refine .acceptMark (fun between left => ?_) (.pure (by omega))
    exact .changed (.call width (by omega) fun value behind fewer => .pure (by omega))
  refine .get (.ite (fun _ => widened _ _ (Nat.le_refl _)) fun _ => ?_)
  exact .call declared small fun name after less => widened name after (by omega)

theorem furtherField_ends (base : CType) (declared : Ends bound 0 declarator)
    (width : Ends bound 1 conditional) : StepEnds bound (furtherField base declarator conditional) := by
  intro state small
  refine .acceptMark (fun after left => ?_) (.pure (Nat.le_refl _))
  exact .call (fieldForm_ends _ declared width) (by omega) fun field behind less =>
    .pure (show _ + 1 ≤ _ by omega)

theorem fieldStep_ends (given : Ends bound 1 specifiers) (declared : Ends bound 0 declarator)
    (width : Ends bound 1 conditional) (enough : bound ≤ budget) :
    StepEnds bound (fieldStep specifiers declarator conditional budget) := by
  intro state small
  refine .get (.ite (fun _ => .pure (Nat.le_refl _)) fun _ => ?_)
  refine .acceptMark (fun after left => .pure (show _ + 1 ≤ _ by omega)) ?_
  refine .call given small fun words between fewer => ?_
  refine .acceptMark (fun after left => .pure (show _ + 1 ≤ _ by omega)) ?_
  refine .call (fieldForm_ends _ declared width) (by omega) fun first after less => ?_
  refine .call (.collectWithin (furtherField_ends _ declared width) enough) (by omega) fun others behind left => ?_
  exact .expectMark fun beyond last => .pure (show _ + 1 ≤ _ by omega)

theorem recordForm_ends (kind : RecordKind) (given : Ends bound 1 specifiers)
    (declared : Ends bound 0 declarator) (width : Ends bound 1 conditional) (enough : bound ≤ budget) :
    Ends bound 0 (recordForm kind specifiers declarator conditional budget) := by
  intro state small
  refine .acceptIdentifier fun tag after less => .acceptMark (fun between left => ?_) (.pure (by omega))
  refine .call (.collectWithin (fieldStep_ends given declared width enough) enough) (by omega)
    fun fields behind fewer => ?_
  exact .expectMark fun beyond last => .pure (by omega)

theorem enumeratorStep_ends (value : Ends bound 1 conditional) :
    StepEnds bound (enumeratorStep conditional) := by
  intro state small
  have separated : ∀ (constant : Enumerator) (after : State), after.tokens.length + 1 ≤ state.tokens.length →
      Settles after (do return some (constant, ← acceptMark .comma)) fun taken left =>
        left + (if taken.any Prod.snd then 1 else 0) ≤ state.tokens.length :=
    fun constant after fewer =>
      .acceptMark (fun behind left => .pure (show _ + 1 ≤ _ by omega)) (.pure (show _ + 0 ≤ _ by omega))
  refine .get (.ite (fun _ => .pure (Nat.le_refl _)) fun _ => .expectIdentifier fun name after left => ?_)
  refine .acceptMark (fun between less => ?_) (separated ⟨name, none⟩ _ (by omega))
  exact .changed (.call value (by omega) fun value behind fewer => separated ⟨name, some value⟩ _ (by omega))

theorem enumerationForm_ends (value : Ends bound 1 conditional) (enough : bound ≤ budget) :
    Ends bound 0 (enumerationForm conditional budget) := by
  intro state small
  refine .acceptIdentifier fun tag after less => .acceptMark (fun between left => ?_) (.pure (by omega))
  refine .call (.collectWithin (enumeratorStep_ends value) enough) (by omega) fun constants behind fewer => ?_
  exact .expectMark fun beyond last => .pure (by omega)

/-! ## Expressions -/

theorem furtherPart_ends (part : Ends bound 1 assignment) : StepEnds bound (furtherPart assignment) := by
  intro state small
  refine .acceptMark (fun after left => ?_) (.pure (Nat.le_refl _))
  exact .call part (by omega) fun value behind fewer => .pure (show _ + 1 ≤ _ by omega)

theorem expressionForm_ends (part : Ends (bound + 1) 1 assignment) (enough : bound + 1 ≤ budget) :
    Ends (bound + 1) 1 (expressionForm assignment budget) := by
  intro state small
  refine .call part small fun first between fewer => ?_
  refine .call (.collectWithin (furtherPart_ends part) enough) (by omega) fun others after less => ?_
  exact .ite (fun _ => .pure (by omega)) fun _ => .spanFrom (.pure (by omega))

theorem assignmentForm_ends (target : Ends (bound + 1) 1 conditional) (value : Ends bound 1 assignment) :
    Ends (bound + 1) 1 (assignmentForm conditional assignment) := by
  intro state small
  refine .call target small fun left between fewer => ?_
  refine .acceptMarkAs (fun operator after less => ?_) fun after same => .pure (by omega)
  exact .call value (by omega) fun right behind least => .pure (by omega)

theorem conditionalForm_ends {binary : Parse Expr} (condition : Ends (bound + 1) 1 binary)
    (thenValue : Ends bound 1 expression) (elseValue : Ends bound 1 conditional) :
    Ends (bound + 1) 1 (conditionalForm binary expression conditional) := by
  intro state small
  refine .call condition small fun value between fewer => ?_
  refine .acceptMark (fun after less => ?_) (.pure (by omega))
  refine .call thenValue (by omega) fun first behind least => .expectMark fun beyond last => ?_
  exact .call elseValue (by omega) fun second rest final => .pure (by omega)

theorem lexeme?_of_binaryOperatorAt {level : Nat} {state : State} {operator : BinaryOperator}
    (found : binaryOperatorAt level state = some operator) : ∃ lexeme, state.lexeme? = some lexeme := by
  unfold binaryOperatorAt at found
  split at found
  · next mark ahead => exact ⟨_, ahead⟩
  · cases found

theorem binaryStep_ends (level : Nat) {operand : Parse Expr} (right : Ends bound 1 operand) :
    RoundEnds bound (binaryStep level operand) := by
  intro left state small
  refine .get ?_
  split
  · exact .pure (Nat.le_refl _)
  · next operator found =>
    obtain ⟨lexeme, ahead⟩ := lexeme?_of_binaryOperatorAt found
    refine .take ahead fun after fewer => ?_
    exact .call right (by omega) fun value behind less => .pure (show _ + 1 ≤ _ by omega)

theorem binaryForm_ends (level : Nat) {operand : Parse Expr} (first : Ends (bound + 1) 1 operand)
    (enough : bound + 1 ≤ budget) : Ends (bound + 1) 1 (binaryForm level operand budget) := by
  intro state small
  refine .call first small fun left between fewer => ?_
  exact .last (.iterateWithin (binaryStep_ends level first) enough left) (by omega)
    fun value rest less => by omega

theorem castForm_ends (uncast : Ends (bound + 1) 1 unary) (operand : Ends bound 1 cast)
    (type : Ends bound 1 typeName) (value : Ends bound 1 initializer)
    (behind : ∀ operand, Ends bound 0 (suffixes operand)) :
    Ends (bound + 1) 1 (castForm unary cast typeName initializer suffixes) := by
  intro state small
  refine .get (.ite (fun _ => .last uncast small fun _ _ fewer => fewer) fun opens => ?_)
  rw [Bool.not_eq_true, Bool.not_eq_false'] at opens
  have ahead : state.isAtMark .leftParen := (Bool.and_eq_true_iff.mp opens).1
  refine .take (beq_iff_eq.mp ahead) fun after left => .call type (by omega) fun target between fewer => ?_
  refine .expectMark fun next last => .get (.ite (fun _ => ?_) fun _ => ?_)
  · refine .call value (by omega) fun entries rest less => .spanFrom ?_
    exact .last (behind _) (by omega) fun result count least => by omega
  · exact .call operand (by omega) fun result rest less => .pure (by omega)

theorem sizeofForm_ends (start : Location) (operand : Ends bound 1 unary) (type : Ends bound 1 typeName)
    (value : Ends bound 1 initializer) (behind : ∀ operand, Ends bound 0 (suffixes operand)) :
    Ends bound 1 (sizeofForm start unary typeName initializer suffixes) := by
  intro state small
  refine .get (.ite (fun opens => ?_) fun _ => ?_)
  · have ahead : state.isAtMark .leftParen := (Bool.and_eq_true_iff.mp opens).1
    refine .take (beq_iff_eq.mp ahead) fun after left => .call type (by omega) fun named between fewer => ?_
    refine .expectMark fun next last => .get (.ite (fun _ => ?_) fun _ => .spanFrom (.pure (by omega)))
    refine .call value (by omega) fun entries rest less => .spanFrom ?_
    exact .call (behind _) (by omega) fun result final least => .spanFrom (.pure (by omega))
  · exact .call operand small fun value after fewer => .pure (by omega)

theorem unaryForm_ends (own : Ends bound 1 unary) (operand : Ends bound 1 cast)
    (plain : Ends (bound + 1) 1 suffixed) (type : Ends bound 1 typeName) (value : Ends bound 1 initializer)
    (behind : ∀ operand, Ends bound 0 (suffixes operand)) :
    Ends (bound + 1) 1 (unaryForm unary cast suffixed typeName initializer suffixes) := by
  intro state small
  refine .location (.acceptKeyword (fun after left => ?_) ?_)
  · exact .last (sizeofForm_ends _ own type value behind) (by omega) fun result count fewer => by omega
  refine .acceptMarkAs (fun operator after left => ?_) fun after same => ?_
  · refine .ite (fun _ => ?_) fun _ => ?_
    · exact .call own (by omega) fun value rest fewer => .pure (by omega)
    · exact .call operand (by omega) fun value rest fewer => .pure (by omega)
  · exact .last plain (by omega) fun value count fewer => by omega

theorem argumentStep_ends (typesAllowed : Bool) (value : Ends bound 1 assignment)
    (type : Ends bound 1 typeName) : StepEnds bound (argumentStep typesAllowed assignment typeName) := by
  intro state small
  have separated : ∀ (argument : Expr) (after : State), after.tokens.length + 1 ≤ state.tokens.length →
      Settles after (do return some (argument, ← acceptMark .comma)) fun taken left =>
        left + (if taken.any Prod.snd then 1 else 0) ≤ state.tokens.length :=
    fun argument after fewer =>
      .acceptMark (fun behind left => .pure (show _ + 1 ≤ _ by omega)) (.pure (show _ + 0 ≤ _ by omega))
  refine .get (.ite (fun _ => ?_) fun _ => ?_)
  · exact .call type small fun named after fewer => .spanFrom (separated _ _ fewer)
  · exact .call value small fun argument after fewer => separated argument _ fewer

theorem argumentsForm_ends (typesAllowed : Bool) (value : Ends bound 1 assignment)
    (type : Ends bound 1 typeName) (enough : bound ≤ budget) :
    Ends bound 0 (argumentsForm typesAllowed assignment typeName budget) := by
  intro state small
  refine .acceptMark (fun after left => .pure (by omega)) ?_
  exact .call (.collectWithin (argumentStep_ends typesAllowed value type) enough) small
    fun arguments after fewer => .expectMark fun behind last => .pure (by omega)

theorem suffixStep_ends (index : Ends bound 1 expression) (value : Ends bound 1 assignment)
    (type : Ends bound 1 typeName) (enough : bound ≤ budget) :
    RoundEnds (bound + 1) (suffixStep expression assignment typeName budget) := by
  intro operand state small
  refine .get ?_
  split
  · next ahead =>
    refine .take ahead fun after left => .call index (by omega) fun value between fewer => ?_
    exact .expectMark fun behind last => .spanFrom (.pure (show _ + 1 ≤ _ by omega))
  · next ahead =>
    refine .take ahead fun after left => ?_
    exact .call (argumentsForm_ends _ value type enough) (by omega) fun arguments behind fewer =>
      .spanFrom (.pure (show _ + 1 ≤ _ by omega))
  iterate 2
    next ahead =>
      refine .take ahead fun after left => .expectIdentifier fun name behind last => ?_
      exact .spanFrom (.pure (show _ + 1 ≤ _ by omega))
  iterate 2
    next ahead => exact .take ahead fun after left => .spanFrom (.pure (show _ + 1 ≤ _ by omega))
  · exact .pure (Nat.le_refl _)

theorem suffixesForm_ends (index : Ends bound 1 expression) (value : Ends bound 1 assignment)
    (type : Ends bound 1 typeName) (enough : bound + 1 ≤ budget) (operand : Expr) :
    Ends (bound + 1) 0 (suffixesForm expression assignment typeName budget operand) :=
  .iterateWithin (suffixStep_ends index value type (Nat.le_of_succ_le enough)) enough operand

theorem primaryForm_ends (inner : Ends bound 1 expression) : Ends (bound + 1) 1 (primaryForm expression) := by
  intro state small
  refine .location (.advance (fun token after left => ?_) .unexpected)
  dsimp only [Option.map_some]
  split
  iterate 3 exact .spanFrom (.pure (by omega))
  · exact .stringPieces fun others behind fewer => .spanFrom (.pure (by omega))
  · exact .spanFrom (.pure (by omega))
  · refine .call inner (by omega) fun value behind fewer => ?_
    exact .expectMark fun beyond last => .pure (by omega)
  · exact .fault rfl
  · exact .unexpected

theorem initializerForm_ends (value : Ends (bound + 1) 1 assignment) (entry : Ends bound 1 item)
    (enough : bound + 1 ≤ budget) : Ends (bound + 1) 1 (initializerForm assignment item budget) := by
  have step : StepEnds bound (initializerForm.itemStep item) := by
    intro state small
    refine .get (.ite (fun _ => .pure (Nat.le_refl _)) fun _ => .call entry small fun value after fewer => ?_)
    exact .acceptMark (fun behind left => .pure (show _ + 1 ≤ _ by omega)) (.pure (show _ + 0 ≤ _ by omega))
  intro state small
  refine .location (.acceptMark (fun after left => ?_) ?_)
  · refine .call (.collectWithin step (Nat.le_of_succ_le enough)) (by omega) fun entries between fewer => ?_
    exact .expectMark fun behind last => .spanFrom (.pure (by omega))
  · exact .call value small fun found after fewer => .spanFrom (.pure (by omega))

theorem designatorStep_ends (index : Ends bound 1 conditional) :
    StepEnds (bound + 1) (designatorStep conditional) := by
  intro state small
  refine .acceptMark (fun after left => ?_) (.acceptMark (fun after left => ?_) (.pure (Nat.le_refl _)))
  · exact .expectIdentifier fun name behind last => .pure (show _ + 1 ≤ _ by omega)
  · refine .call index (by omega) fun value between fewer => ?_
    exact .expectMark fun behind last => .pure (show _ + 1 ≤ _ by omega)

theorem initializerItemForm_ends (index : Ends bound 1 conditional) (value : Ends (bound + 1) 1 initializer)
    (enough : bound + 1 ≤ budget) :
    Ends (bound + 1) 1 (initializerItemForm conditional initializer budget) := by
  intro state small
  refine .location (.call (.collectWithin (designatorStep_ends index) enough) small fun path between less => ?_)
  refine .ite (fun _ => ?_) fun _ => .expectMark fun after last => ?_
  · exact .last value (by omega) fun found count fewer => by omega
  · exact .call value (by omega) fun found behind fewer => .spanFrom (.pure (by omega))

/-! ## Declarations -/

variable {localDeclaration block statement : Parse Statement}

theorem initDeclarator_ends (given : Specifiers) (start : Location) (name : Option String) (type : CType)
    (value : Ends bound 1 initializer) : Ends bound 0 (initDeclarator given start name type initializer) := by
  intro state small
  cases name with
  | none => exact .location (.fault rfl)
  | some name =>
    have declared : ∀ after : State, after.tokens.length ≤ state.tokens.length → Settles after (do
        let value ← if ← acceptMark .equal then some <$> initializer else pure none
        return Declaration.mk name type given.storage given.isInline value (← spanFrom start))
        fun _ left => left + 0 ≤ state.tokens.length := by
      intro after less
      refine .acceptMark (fun between left => ?_) ?_
      · exact .changed (.call value (by omega) fun found behind fewer => .spanFrom (.pure (by omega)))
      · exact .ite (fun never => nomatch never) fun _ => .given (.spanFrom (.pure less))
    refine .ite (fun _ => .addTypedef fun after same => ?_) fun _ => .removeTypedef fun after same => ?_
    · exact declared after (Nat.le_of_eq same)
    · exact declared after (Nat.le_of_eq same)

theorem furtherDeclarator_ends (given : Specifiers) (start : Location) (name : Ends bound 0 declarator)
    (value : Ends bound 1 initializer) :
    StepEnds bound (furtherDeclarator given start declarator initializer) := by
  intro state small
  refine .acceptMark (fun after left => ?_) (.pure (Nat.le_refl _))
  refine .call name (by omega) fun found between less => ?_
  exact .call (initDeclarator_ends given start _ _ value) (by omega) fun declaration behind fewer =>
    .pure (show _ + 1 ≤ _ by omega)

theorem initDeclarators_ends (given : Specifiers) (start : Location) (first : Declarator)
    (name : Ends bound 0 declarator) (value : Ends bound 1 initializer) (enough : bound ≤ budget) :
    Ends bound 1 (initDeclarators given start first declarator initializer budget) := by
  intro state small
  refine .call (initDeclarator_ends given start _ _ value) small fun leading between less => ?_
  refine .call (.collectWithin (furtherDeclarator_ends given start name value) enough) (by omega)
    fun others after fewer => ?_
  exact .expectMark fun behind last => .pure (by omega)

theorem localDeclarationForm_ends (given : Ends (bound + 1) 1 specifiers) (name : Ends bound 0 declarator)
    (value : Ends bound 1 initializer) (enough : bound ≤ budget) :
    Ends (bound + 1) 1 (localDeclarationForm specifiers declarator initializer budget) := by
  intro state small
  refine .location (.call given small fun words between fewer => ?_)
  refine .acceptMark (fun after left => .spanFrom (.pure (by omega))) ?_
  refine .call name (by omega) fun first after less => ?_
  exact .call (initDeclarators_ends words _ first name value enough) (by omega) fun declarations behind last =>
    .spanFrom (.pure (by omega))

/-! ## Statements -/

theorem conditionForm_ends (context : String) (value : Ends bound 1 expression) :
    Ends bound 1 (conditionForm expression context) := by
  intro state small
  refine .expectMark fun after left => .call value (by omega) fun condition between fewer => ?_
  exact .expectMark fun behind last => .pure (by omega)

theorem optionalBefore_ends (mark : Mark) (context : String) (value : Ends bound 1 expression) :
    Ends bound 1 (optionalBefore mark context expression) := by
  intro state small
  refine .get (.ite (fun _ => .expectMark fun after last => .pure (by omega)) fun _ => ?_)
  refine .changed (.call value small fun found between fewer => ?_)
  exact .expectMark fun after last => .pure (by omega)

theorem blockForm_ends (part : Ends bound 1 statement) (enough : bound ≤ budget) :
    Ends (bound + 1) 1 (blockForm statement budget) := by
  have step : StepEnds bound (statementStep statement) := by
    intro state small
    refine .get (.ite (fun _ => .pure (Nat.le_refl _)) fun _ => ?_)
    exact .call part small fun found after fewer => .pure fewer
  intro state small
  refine .location (.expectMark fun after left => ?_)
  have inner : Settles after (inScope do
      let statements ← collectWithin (statementStep statement) budget
      expectMark .rightBrace "compound statement"
      pure statements) fun _ left => left ≤ after.tokens.length := by
    refine .inScope (.call (.collectWithin step enough) (by omega) fun statements between less => ?_)
    exact .expectMark fun behind last => .pure (by omega)
  exact inner.bind fun statements behind less => .spanFrom (.pure (by omega))

theorem ifForm_ends (condition : Ends bound 1 expression) (branch : Ends bound 1 statement) :
    Ends (bound + 1) 1 (ifForm expression statement) := by
  intro state small
  refine .location (.expectKeyword fun after left => ?_)
  refine .call (conditionForm_ends _ condition) (by omega) fun value between fewer => ?_
  refine .call branch (by omega) fun thenBranch behind less => ?_
  refine .acceptKeyword (fun next last => ?_) ?_
  · exact .changed (.call branch (by omega) fun elseBranch rest least => .spanFrom (.pure (by omega)))
  · exact .ite (fun never => nomatch never) fun _ => .given (.spanFrom (.pure (by omega)))

theorem whileForm_ends (condition : Ends bound 1 expression) (body : Ends bound 1 statement) :
    Ends (bound + 1) 1 (whileForm expression statement) := by
  intro state small
  refine .location (.expectKeyword fun after left => ?_)
  refine .call (conditionForm_ends _ condition) (by omega) fun value between fewer => ?_
  exact .call body (by omega) fun inner behind less => .spanFrom (.pure (by omega))

theorem doWhileForm_ends (condition : Ends bound 1 expression) (body : Ends bound 1 statement) :
    Ends (bound + 1) 1 (doWhileForm expression statement) := by
  intro state small
  refine .location (.expectKeyword fun after left => .call body (by omega) fun inner between fewer => ?_)
  refine .expectKeyword fun next last => ?_
  refine .call (conditionForm_ends _ condition) (by omega) fun value behind less => ?_
  exact .expectMark fun rest least => .spanFrom (.pure (by omega))

theorem loopInitForm_ends (value : Ends bound 1 expression) (declared : Ends bound 1 localDeclaration) :
    Ends bound 1 (loopInitForm expression localDeclaration) := by
  intro state small
  refine .acceptMark (fun after left => .pure (by omega)) (.get (.ite (fun _ => ?_) fun _ => ?_))
  · exact .map (declared state small)
  · refine .location (.call value small fun found between fewer => ?_)
    exact .expectMark fun after last => .spanFrom (.pure (by omega))

theorem forForm_ends (value : Ends bound 1 expression) (declared : Ends bound 1 localDeclaration)
    (body : Ends bound 1 statement) : Ends (bound + 1) 1 (forForm expression localDeclaration statement) := by
  intro state small
  refine .location (.expectKeyword fun after left => .expectMark fun opened last => .inScope ?_)
  refine .call (loopInitForm_ends value declared) (by omega) fun init between fewer => ?_
  refine .call (optionalBefore_ends _ _ value) (by omega) fun condition next less => ?_
  refine .call (optionalBefore_ends _ _ value) (by omega) fun update behind least => ?_
  exact .call body (by omega) fun inner rest final => .spanFrom (.pure (by omega))

theorem switchForm_ends (subject : Ends bound 1 expression) (body : Ends bound 1 statement) :
    Ends (bound + 1) 1 (switchForm expression statement) := by
  intro state small
  refine .location (.expectKeyword fun after left => ?_)
  refine .call (conditionForm_ends _ subject) (by omega) fun value between fewer => ?_
  exact .call body (by omega) fun inner behind less => .spanFrom (.pure (by omega))

section Ahead

variable {state : State} {lexeme : Lexeme}

theorem caseForm_settles (ahead : state.lexeme? = some lexeme) (small : state.tokens.length < bound + 1)
    (value : Ends bound 1 conditional) (labelled : Ends bound 1 statement) :
    Settles state (caseForm conditional statement) fun _ left => left + 1 ≤ state.tokens.length := by
  refine .location (.take ahead fun after left => .call value (by omega) fun found between fewer => ?_)
  refine .expectMark fun behind last => ?_
  exact .call labelled (by omega) fun inner rest less => .spanFrom (.pure (by omega))

theorem defaultForm_settles (ahead : state.lexeme? = some lexeme) (small : state.tokens.length < bound + 1)
    (labelled : Ends bound 1 statement) :
    Settles state (defaultForm statement) fun _ left => left + 1 ≤ state.tokens.length := by
  refine .location (.take ahead fun after left => .expectMark fun behind last => ?_)
  exact .call labelled (by omega) fun inner rest less => .spanFrom (.pure (by omega))

theorem returnForm_settles (ahead : state.lexeme? = some lexeme) (small : state.tokens.length < bound + 1)
    (value : Ends bound 1 expression) :
    Settles state (returnForm expression) fun _ left => left + 1 ≤ state.tokens.length := by
  refine .location (.take ahead fun after left => ?_)
  exact .call (optionalBefore_ends _ _ value) (by omega) fun found behind less =>
    .spanFrom (.pure (by omega))

theorem gotoForm_settles (ahead : state.lexeme? = some lexeme) :
    Settles state gotoForm fun _ left => left + 1 ≤ state.tokens.length := by
  refine .location (.take ahead fun after left => .expectIdentifier fun label between fewer => ?_)
  exact .expectMark fun behind last => .spanFrom (.pure (by omega))

theorem labelForm_settles (ahead : state.lexeme? = some lexeme) (small : state.tokens.length < bound + 1)
    (label : String) (labelled : Ends bound 1 statement) :
    Settles state (labelForm label statement) fun _ left => left + 1 ≤ state.tokens.length := by
  refine .location (.take ahead fun after left => .skip fun between less => ?_)
  exact .call labelled (by omega) fun inner rest fewer => .spanFrom (.pure (by omega))

theorem wordForm_settles (ahead : state.lexeme? = some lexeme) (context : String) (build : Span → Statement) :
    Settles state (wordForm context build) fun _ left => left + 1 ≤ state.tokens.length := by
  refine .location (.take ahead fun after left => ?_)
  exact .expectMark fun behind last => .spanFrom (.pure (by omega))

end Ahead

theorem declarationOrExpressionForm_ends (value : Ends bound 1 expression)
    (declared : Ends bound 1 localDeclaration) :
    Ends bound 1 (declarationOrExpressionForm expression localDeclaration) := by
  intro state small
  refine .get (.ite (fun _ => .last declared small fun _ _ fewer => fewer) fun _ => ?_)
  refine .call value small fun found between fewer => ?_
  exact .expectMark fun after last => .spanFrom (.pure (by omega))

theorem statementForm_ends (value : Ends (bound + 1) 1 expression) (label : Ends bound 1 conditional)
    (declared : Ends (bound + 1) 1 localDeclaration) (braced : Ends (bound + 1) 1 block)
    (part : Ends bound 1 statement) :
    Ends (bound + 1) 1 (statementForm expression conditional localDeclaration block statement) := by
  have inner : Ends bound 1 expression := value.mono (Nat.le_succ bound) (Nat.le_refl 1)
  have innerDeclared : Ends bound 1 localDeclaration := declared.mono (Nat.le_succ bound) (Nat.le_refl 1)
  intro state small
  refine .get ?_
  split
  · exact .fault rfl
  · exact braced state small
  · exact ifForm_ends inner part state small
  · exact whileForm_ends inner part state small
  · exact doWhileForm_ends inner part state small
  · exact forForm_ends inner innerDeclared part state small
  · exact switchForm_ends inner part state small
  · next ahead => exact caseForm_settles ahead small label part
  · next ahead => exact defaultForm_settles ahead small part
  · next ahead => exact wordForm_settles ahead _ _
  · next ahead => exact wordForm_settles ahead _ _
  · next ahead => exact returnForm_settles ahead small inner
  · next ahead => exact gotoForm_settles ahead
  · next ahead => exact .take ahead fun after left => .spanFrom (.pure (by omega))
  · exact .fault rfl
  · next ahead =>
    refine .ite (fun _ => labelForm_settles ahead small _ part) fun _ => ?_
    exact declarationOrExpressionForm_ends value declared state small
  · exact declarationOrExpressionForm_ends value declared state small

end Parser

end InlineMacro
