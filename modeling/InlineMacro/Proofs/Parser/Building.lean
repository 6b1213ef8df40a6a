import InlineMacro.Proofs.Parser.Coverage

/-!
# What parsers build from tokens

The productions below statements take tokens from the front, keep the names of types and build trees
out of what the tokens spell. A property of trees that every way of building keeps holds of all they
read. A production is followed from one state, for what it takes depends on the token that it sees.
-/

set_option autoImplicit false

namespace InlineMacro

/-- Whether the grammar has a use for a lexeme. Inline assembly is none of it, and the end of the
file is never passed. -/
def Lexeme.isUsed : Lexeme → Bool
  | .keyword .kwAsm => false
  | .endOfFile => false
  | _ => true

namespace Parser

variable {given : Lexeme → Prop} {typedefs : List String} {α β : Type}

/-! ## Tokens -/

def Passes (before after : List Token) : Prop :=
  ∃ taken, before = taken ++ after ∧ ∀ token ∈ taken, token.lexeme.isUsed

namespace Passes

theorem refl (tokens : List Token) : Passes tokens tokens :=
  ⟨[], rfl, fun _ member => absurd member List.not_mem_nil⟩

theorem trans {before between after : List Token} (first : Passes before between)
    (second : Passes between after) : Passes before after := by
  obtain ⟨front, rfl, frontUsed⟩ := first
  obtain ⟨middle, rfl, middleUsed⟩ := second
  exact ⟨front ++ middle, (List.append_assoc _ _ _).symm, List.forall_mem_append.mpr ⟨frontUsed, middleUsed⟩⟩

theorem token {token : Token} (used : token.lexeme.isUsed) (rest : List Token) :
    Passes (token :: rest) rest :=
  ⟨[token], rfl, List.forall_mem_singleton.mpr used⟩

theorem forall_mem {before after : List Token} (passes : Passes before after)
    {property : Token → Prop} (all : ∀ token ∈ before, property token) : ∀ token ∈ after, property token := by
  obtain ⟨taken, rfl, -⟩ := passes
  exact (List.forall_mem_append.mp all).2

end Passes

/-! ## Productions -/

/-- In some state a parser takes tokens of use and keeps the names of types, also when it fails.
Where the tokens have some property, what it reads has another. -/
def BuildsFrom (given : Lexeme → Prop) (state : State) (parser : Parse α) (holds : α → Prop) : Prop :=
  (∀ token ∈ state.tokens, given token.lexeme) →
    match parser.run state with
    | .ok value after =>
      Passes state.tokens after.tokens ∧ after.typedefs = state.typedefs ∧ holds value
    | .error _ after => after.typedefs = state.typedefs

def Builds (given : Lexeme → Prop) (typedefs : List String) (parser : Parse α) (holds : α → Prop) :
    Prop :=
  ∀ state, state.typedefs = typedefs → BuildsFrom given state parser holds

namespace BuildsFrom

variable {state : State} {parser : Parse α} {holds middle : α → Prop}

theorem bind {next : α → Parse β} {result : β → Prop} (first : BuildsFrom given state parser middle)
    (rest : ∀ value, middle value → Builds given state.typedefs (next value) result) :
    BuildsFrom given state (parser >>= next) result := by
  intro all
  have former := first all
  rw [EStateM.run_bind]
  cases run : parser.run state with
  | error failure after =>
    rw [run] at former
    exact former
  | ok value between =>
    rw [run] at former
    obtain ⟨passes, kept, given'⟩ := former
    have latter := rest value given' between kept (passes.forall_mem all)
    dsimp only
    split
    · next result after goesOn =>
      rw [goesOn] at latter
      exact ⟨passes.trans latter.1, latter.2.1.trans kept, latter.2.2⟩
    · next failure after fails =>
      rw [fails] at latter
      exact latter.trans kept

theorem observe {next : State → Parse α} (rest : BuildsFrom given state (next state) holds) :
    BuildsFrom given state (get >>= next) holds := rest

theorem location {next : Location → Parse α} (rest : BuildsFrom given state (next state.location) holds) :
    BuildsFrom given state (Parser.location >>= next) holds := rest

theorem advance {next : Unit → Parse α} {lexeme : Lexeme} (ahead : state.lexeme? = some lexeme)
    (used : lexeme.isUsed) (rest : given lexeme → Builds given state.typedefs (next ()) holds) :
    BuildsFrom given state (discard Parser.advance >>= next) holds := by
  obtain ⟨tokens, typedefs, fileEnd⟩ := state
  cases tokens with
  | nil => cases ahead
  | cons token tokens =>
    cases ahead
    intro all
    have own := all token List.mem_cons_self
    have latter := rest own ⟨tokens, typedefs, fileEnd⟩ rfl fun other member =>
      all other (List.mem_cons_of_mem _ member)
    change match (next ()).run ⟨tokens, typedefs, fileEnd⟩ with
      | .ok value after => Passes (token :: tokens) after.tokens ∧ after.typedefs = typedefs ∧ holds value
      | .error _ after => after.typedefs = typedefs
    split
    · next value after runs =>
      rw [runs] at latter
      exact ⟨(Passes.token used tokens).trans latter.1, latter.2⟩
    · next failure after runs =>
      rw [runs] at latter
      exact latter

theorem acceptMark_taken {mark : Mark} (isAt : state.isAtMark mark) :
    BuildsFrom given state (Parser.acceptMark mark) (· = true) := by
  apply observe
  rw [if_pos isAt]
  exact .advance (beq_iff_eq.mp isAt) rfl fun _ _ _ _ => ⟨.refl _, rfl, rfl⟩

end BuildsFrom

namespace Builds

variable {parser other : Parse α} {holds middle : α → Prop}

theorem pure {value : α} (built : holds value) : Builds given typedefs (Pure.pure value) holds :=
  fun _ _ _ => ⟨.refl _, rfl, built⟩

theorem failure (failure : Failure) : Builds given typedefs (throw failure : Parse α) holds :=
  fun _ _ _ => rfl

theorem fault (location : Location) (cause : SyntaxFault) :
    Builds given typedefs (Parser.fault location cause : Parse α) holds :=
  .failure _

theorem faulty {location : Location} {cause : SyntaxFault} {next : β → Parse α} :
    Builds given typedefs (Parser.fault location cause >>= next) holds :=
  fun _ _ _ => rfl

theorem bind {next : α → Parse β} {result : β → Prop} (first : Builds given typedefs parser middle)
    (rest : ∀ value, middle value → Builds given typedefs (next value) result) :
    Builds given typedefs (parser >>= next) result := by
  rintro state rfl
  exact (first state rfl).bind rest

theorem map {change : α → β} {result : β → Prop} (first : Builds given typedefs parser holds)
    (kept : ∀ value, holds value → result (change value)) :
    Builds given typedefs (change <$> parser) result := by
  rw [map_eq_pure_bind]
  exact first.bind fun value built => .pure (kept value built)

theorem mono {weaker : α → Prop} (builds : Builds given typedefs parser holds)
    (weakens : ∀ value, holds value → weaker value) : Builds given typedefs parser weaker := by
  have mapped : Builds given typedefs (id <$> parser) weaker := builds.map weakens
  rwa [id_map] at mapped

theorem skip {next : Unit → Parse β} {result : β → Prop} (first : Builds given typedefs parser holds)
    (rest : Builds given typedefs (next ()) result) :
    Builds given typedefs (discard parser >>= next) result := by
  have taken : Builds given typedefs (discard parser) fun _ => True := first.map fun _ _ => trivial
  exact taken.bind fun _ _ => rest

theorem ite {condition : Prop} [Decidable condition] (first : Builds given typedefs parser holds)
    (second : Builds given typedefs other holds) :
    Builds given typedefs (if condition then parser else other) holds := by
  split
  · exact first
  · exact second

theorem get {next : State → Parse α}
    (rest : ∀ state, state.typedefs = typedefs → BuildsFrom given state (next state) holds) :
    Builds given typedefs (MonadState.get >>= next) holds :=
  rest

theorem location {next : Location → Parse α}
    (rest : ∀ location, Builds given typedefs (next location) holds) :
    Builds given typedefs (Parser.location >>= next) holds :=
  fun state same => rest _ state same

theorem spanFrom {start : Location} {next : Span → Parse α}
    (rest : ∀ span, Builds given typedefs (next span) holds) :
    Builds given typedefs (Parser.spanFrom start >>= next) holds :=
  fun state same => rest _ state same

theorem unexpected (wanted : String) (found : Option Token) :
    Builds given typedefs (Parser.unexpected wanted found : Parse α) holds := by
  cases found with
  | none => exact fun _ _ _ => rfl
  | some token => exact .fault _ _

theorem exhausted : Builds given typedefs (Parser.exhausted : Parse α) holds := fun _ _ _ => rfl

/-! ## Single tokens -/

theorem acceptMark (mark : Mark) : Builds given typedefs (Parser.acceptMark mark) fun _ => True := by
  refine .get fun state same => ?_
  split
  · next isAt =>
    exact .advance (beq_iff_eq.mp isAt) rfl fun _ => .pure trivial
  · exact Builds.pure trivial state rfl

theorem acceptKeyword {keyword : Keyword} (used : keyword ≠ .kwAsm) :
    Builds given typedefs (Parser.acceptKeyword keyword) fun _ => True := by
  refine .get fun state same => ?_
  split
  · next isAt =>
    refine .advance (beq_iff_eq.mp isAt) ?_ fun _ => .pure trivial
    cases keyword <;> first | rfl | exact absurd rfl used
  · exact Builds.pure trivial state rfl

theorem takeNext {next : Option Token → Parse α}
    (taken : ∀ token : Token, token.lexeme.isUsed → given token.lexeme →
      Builds given typedefs (next (some token)) holds)
    (refused : ∀ found : Option Token, (∀ token ∈ found, ¬token.lexeme.isUsed) → ∀ state,
      state.typedefs = typedefs → ∃ failure after, (next found).run state = .error failure after ∧
        after.typedefs = typedefs) : Builds given typedefs (Parser.advance >>= next) holds := by
  rintro ⟨tokens, typedefs, fileEnd⟩ rfl all
  cases tokens with
  | nil =>
    obtain ⟨failure, after, fails, kept⟩ := refused none (fun _ member => nomatch member)
      ⟨[], typedefs, fileEnd⟩ rfl
    change match (next none).run ⟨[], typedefs, fileEnd⟩ with
      | .ok value after => Passes [] after.tokens ∧ after.typedefs = typedefs ∧ holds value
      | .error _ after => after.typedefs = typedefs
    rw [fails]
    exact kept
  | cons token tokens =>
    change match (next (some token)).run ⟨tokens, typedefs, fileEnd⟩ with
      | .ok value after => Passes (token :: tokens) after.tokens ∧ after.typedefs = typedefs ∧ holds value
      | .error _ after => after.typedefs = typedefs
    by_cases used : token.lexeme.isUsed
    · have latter := taken token used (all token List.mem_cons_self) ⟨tokens, typedefs, fileEnd⟩ rfl
        fun other member => all other (List.mem_cons_of_mem _ member)
      split
      · next value after runs =>
        rw [runs] at latter
        exact ⟨(Passes.token used tokens).trans latter.1, latter.2⟩
      · next failure after runs =>
        rw [runs] at latter
        exact latter
    · obtain ⟨failure, after, fails, kept⟩ := refused (some token)
        (fun other member => Option.mem_some.mp member ▸ used) ⟨tokens, typedefs, fileEnd⟩ rfl
      rw [fails]
      exact kept

theorem refuses {wanted : String} {found : Option Token} (state : State) (same : state.typedefs = typedefs) :
    ∃ failure after, (Parser.unexpected wanted found : Parse α).run state = .error failure after ∧
      after.typedefs = typedefs := by
  cases found with
  | none => exact ⟨_, state, rfl, same⟩
  | some token => exact ⟨_, state, rfl, same⟩

theorem expect {lexeme : Lexeme} (used : lexeme.isUsed) (context : String) :
    Builds given typedefs (Parser.expect lexeme context) fun _ => True := by
  refine takeNext (fun token _ _ => .ite (.pure trivial) (.unexpected _ _)) fun found unused state same => ?_
  rw [if_neg]
  · exact refuses state same
  · intro isLexeme
    obtain ⟨token, member, rfl⟩ := Option.map_eq_some_iff.mp isLexeme
    exact unused token member used

theorem expectMark (mark : Mark) (context : String) :
    Builds given typedefs (Parser.expectMark mark context) fun _ => True :=
  .expect rfl context

theorem expectIdentifier (context : String) :
    Builds given typedefs (Parser.expectIdentifier context) fun name => given (.identifier name) := by
  refine takeNext (fun token _ spelled => ?_) fun found unused state same => ?_
  · split
    · next name isName =>
      rw [Option.map_some, Option.some.injEq] at isName
      exact .pure (isName ▸ spelled)
    · exact .unexpected _ _
  · split
    · next name isName =>
      obtain ⟨token, member, isName⟩ := Option.map_eq_some_iff.mp isName
      exact absurd (isName ▸ rfl) (unused token member)
    · exact refuses state same

theorem acceptIdentifier : Builds given typedefs Parser.acceptIdentifier fun found : Option String =>
      ∀ name ∈ found, given (.identifier name) := by
  refine .get fun state same => ?_
  split
  · next name ahead =>
    exact .advance ahead rfl fun spelled => .pure fun other member => Option.mem_some.mp member ▸ spelled
  · exact Builds.pure (fun _ member => nomatch member) state rfl

theorem acceptMarkAs (meaning : Mark → Option α) :
    Builds given typedefs (Parser.acceptMarkAs meaning) fun _ => True := by
  refine .get fun state same => ?_
  split
  · next mark ahead =>
    split
    · exact .advance ahead rfl fun _ => .pure trivial
    · exact Builds.pure trivial state rfl
  · exact Builds.pure trivial state rfl

/-! ## Loops -/

theorem collectWithin {step : Parse (Option (α × Bool))} {each : α → Prop}
    (steps : Builds given typedefs step fun taken => ∀ entry ∈ taken, each entry.1) (budget : Nat) :
    Builds given typedefs (Parser.collectWithin step budget) fun values => ∀ value ∈ values, each value := by
  induction budget with
  | zero => exact .exhausted
  | succ budget ih =>
    rw [Parser.collectWithin]
    refine steps.bind fun taken built => ?_
    rcases taken with none | ⟨item, last | further⟩
    · exact .pure fun _ member => absurd member List.not_mem_nil
    · exact .pure (List.forall_mem_singleton.mpr (built _ rfl))
    · exact ih.bind fun others all => .pure (List.forall_mem_cons.mpr ⟨built _ rfl, all⟩)

theorem iterateWithin {step : α → Parse (Option α)}
    (steps : ∀ value, holds value → Builds given typedefs (step value) fun taken =>
      ∀ value ∈ taken, holds value) (budget : Nat) {value : α} (built : holds value) :
    Builds given typedefs (Parser.iterateWithin step budget value) holds := by
  induction budget generalizing value with
  | zero => exact .exhausted
  | succ budget ih =>
    rw [Parser.iterateWithin]
    refine (steps value built).bind fun taken all => ?_
    cases taken with
    | none => exact .pure built
    | some next => exact ih (all next rfl)

end Builds

/-! ## Runs of tokens -/

theorem qualifierRun_passes (read : Qualifiers) (tokens : List Token) :
    Passes tokens (qualifierRun read tokens).2 := by
  induction tokens generalizing read with
  | nil => exact .refl []
  | cons token rest ih =>
    rw [qualifierRun]
    split
    · next keyword isKeyword =>
      split
      · next more found =>
        refine (Passes.token ?_ rest).trans (ih more)
        rw [isKeyword]
        cases keyword <;> first | rfl | cases found
      · exact .refl _
    · exact .refl _

theorem qualifiers_builds : Builds given typedefs qualifiers fun _ => True :=
  fun state _ _ => ⟨qualifierRun_passes {} state.tokens, rfl, trivial⟩

theorem stringRun_passes {tokens : List Token} (all : ∀ token ∈ tokens, given token.lexeme) :
    Passes tokens (stringRun tokens).2 ∧ ∀ piece ∈ (stringRun tokens).1, given (.stringLiteral piece) := by
  induction tokens with
  | nil => exact ⟨.refl [], fun _ member => absurd member List.not_mem_nil⟩
  | cons token rest ih =>
    obtain ⟨own, others⟩ := List.forall_mem_cons.mp all
    obtain ⟨passes, pieces⟩ := ih others
    rw [stringRun]
    split
    · next piece isPiece =>
      exact ⟨(Passes.token (by rw [isPiece]; rfl) rest).trans passes,
        List.forall_mem_cons.mpr ⟨isPiece ▸ own, pieces⟩⟩
    · exact ⟨.refl _, fun _ member => absurd member List.not_mem_nil⟩

theorem stringPieces_builds : Builds given typedefs stringPieces fun pieces =>
    ∀ piece ∈ pieces, given (.stringLiteral piece) :=
  fun _ _ all => ⟨(stringRun_passes all).1, rfl, (stringRun_passes all).2⟩

end Parser

end InlineMacro
