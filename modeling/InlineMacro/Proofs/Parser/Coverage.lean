import InlineMacro.Parser.Grammar
import InlineMacro.Proofs.Stateful
import InlineMacro.Proofs.Syntax.Content

/-!
# What a parser makes of tokens

Each production uses its tokens up: the names and bodies in what it reads are those that are written
in the tokens it takes, except where a declaration repeats its type for a further declarator. A type
with a tag is repeated without its body; one without a tag cannot be.

A production is followed together with what has been read before it, for a declarator reads a type
that starts with specifiers read earlier.
-/

set_option autoImplicit false

namespace InlineMacro

namespace Delivers

open InlineMacro.Parser (Parse)

variable {α β : Type} {parser : Parse α} {holds : α → Prop}

theorem fault (location : Location) (cause : SyntaxFault) :
    Delivers (Parser.fault location cause : Parse α) holds :=
  .failure _

theorem exhausted : Delivers (Parser.exhausted : Parse α) holds :=
  .after fun _ => .fault _ _

theorem iterateWithin {step : α → Parse (Option α)}
    (steps : ∀ value, holds value → Delivers (step value) fun taken => ∀ next ∈ taken, holds next)
    (budget : Nat) {value : α} (given : holds value) :
    Delivers (Parser.iterateWithin step budget value) holds := by
  induction budget generalizing value with
  | zero => exact .exhausted
  | succ budget ih =>
    rw [Parser.iterateWithin]
    refine (steps value given).bind fun taken kept => ?_
    cases taken with
    | none => exact .pure given
    | some next => exact ih (kept next rfl)

end Delivers

def Token.Spells (word : String → Prop) (token : Token) : Prop :=
  ∀ name, token.lexeme = .identifier name → word name

namespace Parser

def bodyFollows (tokens : List Token) : Bool :=
  match tokens.head?.map Token.lexeme with
  | some (.identifier _) => tokens.tail.head?.map Token.lexeme == some (.mark .leftBrace)
  | first => first == some (.mark .leftBrace)

def bodiesWritten : List Token → Nat
  | [] => 0
  | token :: rest =>
    match token.lexeme with
    | .endOfFile => 0
    | .keyword keyword =>
      (if (bodiedTypeOfKeyword? keyword).isSome && bodyFollows rest then 1 else 0) +
        bodiesWritten rest
    | _ => bodiesWritten rest

def IsPlain : Lexeme → Prop
  | .keyword keyword => bodiedTypeOfKeyword? keyword = none
  | .endOfFile => False
  | _ => True

theorem bodiesWritten_plain {token : Token} (plain : IsPlain token.lexeme) (rest : List Token) :
    bodiesWritten (token :: rest) = bodiesWritten rest := by
  rw [bodiesWritten]
  split
  · next same =>
    rw [same] at plain
    cases plain
  · next keyword same =>
    rw [same] at plain
    have none : bodiedTypeOfKeyword? keyword = none := plain
    rw [none]
    exact Nat.zero_add _
  · rfl

theorem bodiesWritten_keyword {token : Token} {keyword : Keyword}
    (isKeyword : token.lexeme = .keyword keyword)
    (bodied : (bodiedTypeOfKeyword? keyword).isSome) (rest : List Token) :
    bodiesWritten (token :: rest) = (if bodyFollows rest then 1 else 0) + bodiesWritten rest := by
  rw [bodiesWritten, isKeyword]
  simp only [bodied, Bool.true_and]

variable {word : String → Prop}

/-! ## Tokens that are used up -/

/-- The tokens between two places, with what they are read as. Bodies without a tag may have been
repeated from what was known before; if none stands twice, none has been. -/
structure Covers (word : String → Prop) (before after : List Token) (known content : Content) :
    Prop where
  words : (∀ token ∈ before, token.Spells word) → (∀ name ∈ known.1, word name) →
    (∀ token ∈ after, token.Spells word) ∧ ∀ name ∈ content.1, word name
  atLeast : bodiesWritten before ≤ bodiesWritten after + content.2.card
  exact : (known + content).tagless.Nodup →
    bodiesWritten before = bodiesWritten after + content.2.card

namespace Covers

variable {before between after : List Token} {known content more : Content}

theorem nothing (before : List Token) (known : Content) : Covers word before before known 0 where
  words spelled _ := ⟨spelled, fun _ member => absurd member (Multiset.notMem_zero _)⟩
  atLeast := Nat.le_refl _
  exact _ := rfl

theorem trans (first : Covers word before between known content)
    (second : Covers word between after (known + content) more) :
    Covers word before after known (content + more) where
  words spelled knownWords := by
    obtain ⟨spelled, firstWords⟩ := first.words spelled knownWords
    have allKnown : ∀ name ∈ (known + content).1, word name := by
      intro name member
      rcases Multiset.mem_add.mp member with member | member
      · exact knownWords name member
      · exact firstWords name member
    obtain ⟨spelled, secondWords⟩ := second.words spelled allKnown
    refine ⟨spelled, fun name member => ?_⟩
    rcases Multiset.mem_add.mp member with member | member
    · exact firstWords name member
    · exact secondWords name member
  atLeast := by
    have sum : (content + more).2.card = content.2.card + more.2.card := Multiset.card_add _ _
    have := first.atLeast
    have := second.atLeast
    omega
  exact single := by
    have sum : (content + more).2.card = content.2.card + more.2.card := Multiset.card_add _ _
    rw [← add_assoc] at single
    have fewer : (known + content).tagless.Nodup := by
      rw [Content.tagless_add] at single
      exact Multiset.nodup_of_le (Multiset.le_add_right _ _) single
    have := first.exact fewer
    have := second.exact single
    omega

theorem widen (covers : Covers word before after known content) (extra : Content) :
    Covers word before after (extra + known) content where
  words spelled knownWords :=
    covers.words spelled fun name member => knownWords name (Multiset.mem_add.mpr (.inr member))
  atLeast := covers.atLeast
  exact single := by
    rw [add_assoc, Content.tagless_add] at single
    exact covers.exact (Multiset.nodup_of_le (Multiset.le_add_left _ _) single)

theorem frame (covers : Covers word before after 0 content) (known : Content) :
    Covers word before after known content := by
  have wide := covers.widen known
  rwa [add_zero] at wide

theorem repeated (before : List Token) (names : ∀ name ∈ content.1, name ∈ known.1)
    (twice : (known + content).tagless.Nodup → content.2 = 0) :
    Covers word before before known content where
  words spelled knownWords := ⟨spelled, fun name member => knownWords name (names name member)⟩
  atLeast := Nat.le_add_right _ _
  exact single := by rw [twice single, Multiset.card_zero, Nat.add_zero]

theorem token {token : Token} (plain : IsPlain token.lexeme) (rest : List Token)
    (known : Content) : Covers word (token :: rest) rest known 0 where
  words spelled _ := ⟨fun token member => spelled token (List.mem_cons_of_mem _ member),
    fun _ member => absurd member (Multiset.notMem_zero _)⟩
  atLeast := (bodiesWritten_plain plain rest).le
  exact _ := bodiesWritten_plain plain rest

theorem identifier {token : Token} {name : String} (isName : token.lexeme = .identifier name)
    (rest : List Token) (known : Content) :
    Covers word (token :: rest) rest known (.ofName name) where
  words spelled _ := by
    refine ⟨fun token member => spelled token (List.mem_cons_of_mem _ member), ?_⟩
    intro other member
    rw [List.mem_singleton.mp (Multiset.mem_coe.mp member)]
    exact spelled token List.mem_cons_self name isName
  atLeast := (bodiesWritten_plain (by rw [isName]; trivial) rest).le
  exact _ := bodiesWritten_plain (by rw [isName]; trivial) rest

end Covers

/-! ## Parsers that use tokens up -/

variable {α β : Type}

def ReadsFrom (word : String → Prop) (state : State) (parser : Parse α) (known : Content)
    (content : α → Content) : Prop :=
  ∀ value after, parser.run state = .ok value after →
    ∃ more, content value = known + more ∧ Covers word state.tokens after.tokens known more

def Reads (word : String → Prop) (parser : Parse α) (known : Content) (content : α → Content) :
    Prop :=
  ∀ state, ReadsFrom word state parser known content

def Silent (word : String → Prop) (parser : Parse α) : Prop :=
  ∀ state value after, parser.run state = .ok value after →
    Covers word state.tokens after.tokens 0 0

theorem bind_ok {parser : Parse α} {next : α → Parse β} {state after : State} {value : β}
    (runs : (parser >>= next).run state = .ok value after) :
    ∃ read between, parser.run state = .ok read between ∧ (next read).run between = .ok value after := by
  rw [EStateM.run_bind] at runs
  cases read : parser.run state with
  | ok found between =>
    rw [read] at runs
    exact ⟨found, between, rfl, runs⟩
  | error failure between =>
    rw [read] at runs
    cases runs

namespace ReadsFrom

variable {state : State} {parser : Parse α} {known : Content} {content between : α → Content}

theorem bind {next : α → Parse β} {whole : β → Content} (first : ReadsFrom word state parser known between)
    (rest : ∀ value, Reads word (next value) (between value) whole) :
    ReadsFrom word state (parser >>= next) known whole := by
  intro value after runs
  obtain ⟨read, middle, firstRuns, restRuns⟩ := bind_ok runs
  obtain ⟨more, same, covers⟩ := first read middle firstRuns
  obtain ⟨others, sameWhole, restCovers⟩ := rest read middle value after restRuns
  rw [same] at restCovers sameWhole
  exact ⟨more + others, by rw [sameWhole, add_assoc], covers.trans restCovers⟩

theorem skip {next : α → Parse β} {whole : β → Content} (silent : Silent word parser)
    (rest : ∀ value, Reads word (next value) known whole) :
    ReadsFrom word state (parser >>= next) known whole := by
  intro value after runs
  obtain ⟨read, middle, firstRuns, restRuns⟩ := bind_ok runs
  obtain ⟨others, sameWhole, restCovers⟩ := rest read middle value after restRuns
  refine ⟨others, sameWhole, ?_⟩
  rw [← zero_add others]
  exact ((silent state read middle firstRuns).frame known).trans (by rwa [add_zero])

theorem location {next : Location → Parse β} {whole : β → Content}
    (rest : ReadsFrom word state (next state.location) known whole) :
    ReadsFrom word state (Parser.location >>= next) known whole := by
  intro value after runs
  obtain ⟨start, middle, locates, runs⟩ := bind_ok runs
  cases locates
  exact rest value after runs

theorem advance {next : Unit → Parse β} {whole : β → Content} {lexeme : Lexeme}
    (ahead : state.lexeme? = some lexeme) (plain : IsPlain lexeme) (rest : Reads word (next ()) known whole) :
    ReadsFrom word state (discard Parser.advance >>= next) known whole := by
  obtain ⟨tokens, typedefs, fileEnd⟩ := state
  cases tokens with
  | nil => cases ahead
  | cons token tokens =>
    cases ahead
    intro value after runs
    obtain ⟨more, same, covers⟩ := rest ⟨tokens, typedefs, fileEnd⟩ value after runs
    refine ⟨more, same, ?_⟩
    rw [← zero_add more]
    exact (Covers.token plain tokens known).trans (by rwa [add_zero])

theorem name {next : Unit → Parse β} {whole : β → Content} {name : String}
    (ahead : state.lexeme? = some (.identifier name))
    (rest : Reads word (next ()) (known + .ofName name) whole) :
    ReadsFrom word state (discard Parser.advance >>= next) known whole := by
  obtain ⟨tokens, typedefs, fileEnd⟩ := state
  cases tokens with
  | nil => cases ahead
  | cons token tokens =>
    have isName : token.lexeme = .identifier name := Option.some.inj ahead
    intro value after runs
    obtain ⟨more, same, covers⟩ := rest ⟨tokens, typedefs, fileEnd⟩ value after runs
    exact ⟨.ofName name + more, by rw [same, add_assoc],
      (Covers.identifier isName tokens known).trans covers⟩

end ReadsFrom

namespace Reads

variable {parser other : Parse α} {known : Content} {content between : α → Content}

theorem pure {value : α} (same : content value = known) : Reads word (Pure.pure value) known content := by
  intro state result after runs
  cases runs
  exact ⟨0, by rw [same, add_zero], .nothing _ _⟩

theorem repeated {more : Content} (names : ∀ name ∈ more.1, name ∈ known.1)
    (twice : (known + more).tagless.Nodup → more.2 = 0)
    (reads : Reads word parser (known + more) content) : Reads word parser known content := by
  intro state value after runs
  obtain ⟨others, same, covers⟩ := reads state value after runs
  exact ⟨more + others, by rw [same, add_assoc],
    (Covers.repeated state.tokens names twice).trans covers⟩

theorem bind {next : α → Parse β} {whole : β → Content} (first : Reads word parser known between)
    (rest : ∀ value, Reads word (next value) (between value) whole) :
    Reads word (parser >>= next) known whole :=
  fun state => (first state).bind rest

theorem bindKnown {next : α → Parse β} {whole : β → Content} (first : Reads word parser known between)
    (rest : ∀ value more, between value = known + more → Reads word (next value) (known + more) whole) :
    Reads word (parser >>= next) known whole := by
  intro state value after runs
  obtain ⟨read, middle, firstRuns, restRuns⟩ := bind_ok runs
  obtain ⟨more, same, covers⟩ := first state read middle firstRuns
  obtain ⟨others, sameWhole, restCovers⟩ := rest read more same middle value after restRuns
  exact ⟨more + others, by rw [sameWhole, add_assoc], covers.trans restCovers⟩

theorem widen (reads : Reads word parser known content) (extra : Content) :
    Reads word parser (extra + known) fun value => extra + content value := by
  intro state value after runs
  obtain ⟨more, same, covers⟩ := reads state value after runs
  refine ⟨more, ?_, covers.widen extra⟩
  rw [add_assoc, ← same]

theorem frame (reads : Reads word parser 0 content) (known : Content) :
    Reads word parser known fun value => known + content value := by
  have wide := reads.widen known
  rwa [add_zero] at wide

theorem step {next : α → Parse β} {whole : β → Content} (first : Reads word parser 0 content)
    (rest : ∀ value, Reads word (next value) (known + content value) whole) :
    Reads word (parser >>= next) known whole :=
  (first.frame known).bind rest

theorem stepWith {holds : α → Prop} {next : α → Parse β} {whole : β → Content}
    (first : Reads word parser 0 content) (yields : Delivers parser holds)
    (rest : ∀ value, holds value → Reads word (next value) (known + content value) whole) :
    Reads word (parser >>= next) known whole := by
  intro state value after runs
  obtain ⟨read, middle, firstRuns, restRuns⟩ := bind_ok runs
  obtain ⟨more, same, covers⟩ := first.frame known state read middle firstRuns
  dsimp only at same
  obtain ⟨others, sameWhole, restCovers⟩ :=
    rest read (yields state read middle firstRuns) middle value after restRuns
  rw [same] at restCovers sameWhole
  exact ⟨more + others, by rw [sameWhole, add_assoc], covers.trans restCovers⟩

theorem skip {next : α → Parse β} {whole : β → Content} (silent : Silent word parser)
    (rest : ∀ value, Reads word (next value) known whole) : Reads word (parser >>= next) known whole :=
  fun _ => .skip silent rest

theorem get {next : State → Parse β} {whole : β → Content}
    (rest : ∀ state, ReadsFrom word state (next state) known whole) : Reads word (get >>= next) known whole :=
  fun state => rest state

theorem map {change : α → β} {whole : β → Content} (reads : Reads word parser known between)
    (same : ∀ value, whole (change value) = between value) : Reads word (change <$> parser) known whole := by
  rw [map_eq_pure_bind]
  exact reads.bind fun value => .pure (same value)

theorem ite {condition : Prop} [Decidable condition] (first : Reads word parser known content)
    (second : Reads word other known content) :
    Reads word (if condition then parser else other) known content := by
  split
  · exact first
  · exact second

theorem failure (failure : Failure) : Reads word (throw failure : Parse α) known content := by
  intro state value after runs
  cases runs

theorem fault (location : Location) (cause : SyntaxFault) :
    Reads word (Parser.fault location cause : Parse α) known content :=
  .failure _

theorem faulty {location : Location} {cause : SyntaxFault} {next : α → Parse β} {whole : β → Content} :
    Reads word ((Parser.fault location cause : Parse α) >>= next) known whole := by
  intro state value after runs
  cases runs

theorem unexpected (wanted : String) (found : Option Token) :
    Reads word (Parser.unexpected wanted found : Parse α) known content := by
  cases found with
  | none => exact fun state value after runs => by cases runs
  | some token => exact .fault _ _

theorem exhausted : Reads word (Parser.exhausted : Parse α) known content :=
  fun state value after runs => by cases runs

theorem inScope (reads : Reads word parser known content) :
    Reads word (Parser.inScope parser) known content := by
  intro state value after runs
  obtain ⟨outer, middle, got, runs⟩ := bind_ok runs
  cases got
  obtain ⟨read, between, firstRuns, runs⟩ := bind_ok runs
  cases runs
  exact reads state value between firstRuns

theorem budgeted {production : Nat → Parse α}
    (reads : ∀ budget, Reads word (production budget) known content) :
    Reads word (Parser.budgeted production) known content :=
  .get fun state => reads state.budget state

theorem collectWithin {step : Parse (Option (α × Bool))} {part : α → Content}
    (steps : ∀ more, Reads word step (known + more) fun taken =>
      known + more + optionalContent (fun entry => part entry.1) taken) (budget : Nat) :
    Reads word (Parser.collectWithin step budget) known fun values =>
      known + listContent part values := by
  have all : ∀ budget more, Reads word (Parser.collectWithin step budget) (known + more)
      fun values => known + more + listContent part values := by
    intro budget
    induction budget with
    | zero => exact fun more => .exhausted
    | succ budget ih =>
      intro more
      rw [Parser.collectWithin]
      refine (steps more).bind fun taken => ?_
      rcases taken with none | ⟨item, last | further⟩
      · exact .pure rfl
      · refine .pure ?_
        rw [listContent_cons, listContent_nil, add_zero, optionalContent_some]
      · have others := ih (more + part item)
        rw [← add_assoc] at others
        refine others.bind fun values => .pure ?_
        rw [listContent_cons, add_assoc (known + more)]
  have start := all budget 0
  rwa [add_zero] at start

theorem collect {step : Parse (Option (α × Bool))} {part : α → Content}
    (steps : Reads word step 0 (optionalContent fun entry => part entry.1)) (budget : Nat) :
    Reads word (Parser.collectWithin step budget) 0 (listContent part) := by
  have all : Reads word (Parser.collectWithin step budget) 0 fun values =>
      0 + listContent part values := collectWithin (fun more => steps.frame (0 + more)) budget
  simpa only [zero_add] using all

theorem iterateWithin {step : α → Parse (Option α)}
    (steps : ∀ value, Reads word (step value) (content value) fun taken =>
      taken.elim (content value) content) (budget : Nat) (value : α) :
    Reads word (Parser.iterateWithin step budget value) (content value) content := by
  induction budget generalizing value with
  | zero => exact .exhausted
  | succ budget ih =>
    rw [Parser.iterateWithin]
    refine (steps value).bind fun taken => ?_
    cases taken with
    | none => exact .pure rfl
    | some next => exact ih next

end Reads

/-! ## Parsers that take nothing of interest -/

namespace Silent

variable {parser : Parse α}

theorem unchanged (same : ∀ state value after, parser.run state = .ok value after →
    after.tokens = state.tokens) : Silent word parser := by
  intro state value after runs
  rw [same state value after runs]
  exact .nothing _ _

theorem dropped (silent : Silent word parser) : Silent word (discard parser) := by
  intro state value after runs
  change (parser >>= fun _ => Pure.pure ()).run state = _ at runs
  obtain ⟨read, between, firstRuns, runs⟩ := bind_ok runs
  cases runs
  exact silent state read after firstRuns

theorem location : Silent word Parser.location :=
  .unchanged fun _ _ _ runs => by cases runs; rfl

theorem spanFrom (start : Location) : Silent word (Parser.spanFrom start) :=
  .unchanged fun _ _ _ runs => by cases runs; rfl

theorem addTypedef (name : String) : Silent word (Parser.addTypedef name) := by
  refine .unchanged fun state _ after runs => ?_
  cases runs
  change State.tokens (if state.isTypedef name then state else _) = state.tokens
  split <;> rfl

theorem removeTypedef (name : String) : Silent word (Parser.removeTypedef name) :=
  .unchanged fun _ _ _ runs => by cases runs; rfl

theorem accepting {lexeme : Lexeme} (plain : IsPlain lexeme) {test : State → Bool}
    (isAhead : ∀ state, test state → state.lexeme? = some lexeme) :
    Silent word (do
      if test (← get) then
        discard advance
        Pure.pure true
      else Pure.pure false) := by
  intro state value after runs
  have reads : Reads word (do
      if test (← get) then
        discard advance
        Pure.pure true
      else Pure.pure false) 0 fun _ => 0 := by
    refine .get fun state => ?_
    cases here : test state with
    | true => exact .advance (isAhead state here) plain (.pure rfl)
    | false => exact Reads.pure rfl state
  obtain ⟨more, same, covers⟩ := reads state value after runs
  rw [zero_add] at same
  rwa [← same] at covers

theorem acceptMark (mark : Mark) : Silent word (Parser.acceptMark mark) :=
  have plain : IsPlain (.mark mark) := trivial
  accepting plain fun _ ahead => beq_iff_eq.mp ahead

theorem acceptKeyword {keyword : Keyword} (plain : bodiedTypeOfKeyword? keyword = none) :
    Silent word (Parser.acceptKeyword keyword) :=
  have isPlain : IsPlain (.keyword keyword) := plain
  accepting isPlain fun _ ahead => beq_iff_eq.mp ahead

theorem expect {lexeme : Lexeme} (plain : IsPlain lexeme) (context : String) :
    Silent word (Parser.expect lexeme context) := by
  intro state value after runs
  obtain ⟨found, between, firstRuns, runs⟩ := bind_ok runs
  obtain ⟨tokens, typedefs, fileEnd⟩ := state
  cases tokens with
  | nil =>
    cases firstRuns
    cases runs
  | cons token tokens =>
    cases firstRuns
    split at runs
    · next same =>
      cases runs
      exact .token (by rw [Option.some.inj same]; exact plain) tokens 0
    · cases runs

theorem expectMark (mark : Mark) (context : String) : Silent word (Parser.expectMark mark context) :=
  have plain : IsPlain (.mark mark) := trivial
  expect plain context

theorem expectKeyword {keyword : Keyword} (plain : bodiedTypeOfKeyword? keyword = none)
    (context : String) : Silent word (Parser.expectKeyword keyword context) :=
  have isPlain : IsPlain (.keyword keyword) := plain
  expect isPlain context

theorem expectIdentifier (context : String) : Silent word (Parser.expectIdentifier context) := by
  intro state value after runs
  obtain ⟨found, between, firstRuns, runs⟩ := bind_ok runs
  obtain ⟨tokens, typedefs, fileEnd⟩ := state
  cases tokens with
  | nil =>
    cases firstRuns
    cases runs
  | cons token tokens =>
    cases firstRuns
    split at runs
    · next name isName =>
      cases runs
      exact .token (by rw [Option.some.inj isName]; trivial) tokens 0
    · cases runs

theorem acceptMarkAs (meaning : Mark → Option α) : Silent word (Parser.acceptMarkAs meaning) := by
  intro state value after runs
  have reads : Reads word (Parser.acceptMarkAs meaning) 0 fun _ => 0 := by
    refine .get fun state => ?_
    split
    · next mark ahead =>
      split
      · exact .advance ahead trivial (.pure rfl)
      · exact Reads.pure rfl state
    · exact Reads.pure rfl state
  obtain ⟨more, same, covers⟩ := reads state value after runs
  rw [zero_add] at same
  rwa [← same] at covers

theorem qualifierRun_covers (qualifiers : Qualifiers) (tokens : List Token) :
    Covers word tokens (Parser.qualifierRun qualifiers tokens).2 0 0 := by
  induction tokens generalizing qualifiers with
  | nil => exact .nothing _ _
  | cons token rest ih =>
    rw [Parser.qualifierRun]
    split
    · next keyword isKeyword =>
      split
      · next more found =>
        have plain : IsPlain token.lexeme := by
          rw [isKeyword]
          unfold addQualifier? at found
          split at found
          · rfl
          · rfl
          · rfl
          · cases found
        have behind := (Covers.token plain rest 0).trans (add_zero (0 : Content) ▸ ih more)
        rwa [add_zero] at behind
      · exact .nothing _ _
    · exact .nothing _ _

theorem qualifiers : Silent word Parser.qualifiers := by
  intro state value after runs
  cases runs
  exact qualifierRun_covers _ _

theorem stringRun_covers (tokens : List Token) : Covers word tokens (Parser.stringRun tokens).2 0 0 := by
  induction tokens with
  | nil => exact .nothing _ _
  | cons token rest ih =>
    rw [Parser.stringRun]
    split
    · next piece isString =>
      have plain : IsPlain token.lexeme := by
        rw [isString]
        trivial
      have behind := (Covers.token plain rest 0).trans (add_zero (0 : Content) ▸ ih)
      rwa [add_zero] at behind
    · exact .nothing _ _

theorem stringPieces : Silent word Parser.stringPieces := by
  intro state value after runs
  cases runs
  exact stringRun_covers _

end Silent

/-! ## Names -/

theorem acceptIdentifier_reads : Reads word Parser.acceptIdentifier 0 Content.ofOption := by
  refine .get fun state => ?_
  split
  · next name ahead => exact .name ahead (.pure (zero_add _).symm)
  · exact Reads.pure rfl state

theorem expectIdentifier_reads (context : String) :
    Reads word (Parser.expectIdentifier context) 0 Content.ofName := by
  intro state value after runs
  obtain ⟨found, between, firstRuns, runs⟩ := bind_ok runs
  obtain ⟨tokens, typedefs, fileEnd⟩ := state
  cases tokens with
  | nil =>
    cases firstRuns
    exact Reads.unexpected _ _ _ _ _ runs
  | cons token tokens =>
    cases firstRuns
    split at runs
    · next name isName =>
      cases runs
      exact ⟨.ofName _, (zero_add _).symm, .identifier (Option.some.inj isName) tokens 0⟩
    · cases runs

end Parser

end InlineMacro
