import InlineMacro.Proofs.Parser.Coverage
import InlineMacro.Proofs.Token.Counters

/-!
# Counting while parsing

The parser counts one thing, the words `long` of a declaration. Where no specifiers in a row hold
more of them than the count can tell, every failure of the parser is that of a token at its place.
-/

set_option autoImplicit false

namespace InlineMacro

namespace Parser

def isSpecifierWord (token : Token) : Bool :=
  match token.lexeme with
  | .keyword keyword => (({} : SpecifierWords).addKeyword? keyword).isSome
  | _ => false

def isLong (token : Token) : Bool := token.lexeme == .keyword .kwLong

/-- The specifiers with which the tokens start hold few enough words `long` to be counted behind some
others. -/
def RoomBehind (counted : Nat) (tokens : List Token) : Prop :=
  ∀ run, run <+: tokens → (∀ token ∈ run, isSpecifierWord token) →
    counted + run.countP isLong < TypeWords.longBound

def LongsFit (tokens : List Token) : Prop :=
  ∀ run, run <:+: tokens → (∀ token ∈ run, isSpecifierWord token) →
    run.countP isLong < TypeWords.longBound

theorem LongsFit.suffix {tokens rest : List Token} (fits : LongsFit tokens)
    (isSuffix : rest <:+ tokens) : LongsFit rest :=
  fun run inside => fits run (inside.trans isSuffix.isInfix)

theorem LongsFit.room {tokens : List Token} (fits : LongsFit tokens) : RoomBehind 0 tokens :=
  fun run leads words => by
    rw [Nat.zero_add]
    exact fits run leads.isInfix words

theorem RoomBehind.fits {counted : Nat} {tokens : List Token} (room : RoomBehind counted tokens) :
    counted < TypeWords.longBound :=
  room [] List.nil_prefix fun _ member => absurd member List.not_mem_nil

theorem RoomBehind.tail {counted : Nat} {token : Token} {tokens : List Token}
    (room : RoomBehind counted (token :: tokens)) (isWord : isSpecifierWord token) :
    RoomBehind (counted + if isLong token then 1 else 0) tokens := by
  intro run leads words
  have whole := room (token :: run) (List.prefix_cons_inj token |>.mpr leads)
    (List.forall_mem_cons.mpr ⟨isWord, words⟩)
  rw [List.countP_cons] at whole
  omega

variable {α β : Type}

/-- A parser takes tokens from the front alone, and fails at a place in the source, as long as the
words `long` can be counted. -/
structure Counts (parser : Parse α) : Prop where
  rest : ∀ state, LongsFit state.tokens → ∀ value after, parser.run state = .ok value after →
    after.tokens <:+ state.tokens
  fails : ∀ state, LongsFit state.tokens → ∀ failure after,
    parser.run state = .error failure after → failure.isSyntaxError

namespace Counts

variable {parser other : Parse α}

theorem pure (value : α) : Counts (Pure.pure value) where
  rest state _ result after runs := by
    cases runs
    exact List.suffix_rfl
  fails state _ failure after runs := by cases runs

theorem bind {next : α → Parse β} (first : Counts parser) (others : ∀ value, Counts (next value)) :
    Counts (parser >>= next) where
  rest state fits value after runs := by
    obtain ⟨read, between, firstRuns, restRuns⟩ := bind_ok runs
    have taken := first.rest state fits read between firstRuns
    exact ((others read).rest between (fits.suffix taken) value after restRuns).trans taken
  fails state fits failure after runs := by
    rw [EStateM.run_bind] at runs
    cases read : parser.run state with
    | ok value between =>
      rw [read] at runs
      exact (others value).fails between (fits.suffix (first.rest state fits value between read))
        failure after runs
    | error failure between =>
      rw [read] at runs
      cases runs
      exact first.fails state fits failure after read

theorem map (change : α → β) (reads : Counts parser) : Counts (change <$> parser) := by
  rw [map_eq_pure_bind]
  exact reads.bind fun value => .pure _

theorem ite {condition : Prop} [Decidable condition] (first : Counts parser)
    (second : Counts other) : Counts (if condition then parser else other) := by
  split
  · exact first
  · exact second

theorem get : Counts (MonadState.get : Parse State) where
  rest state _ value after runs := by
    cases runs
    exact List.suffix_rfl
  fails state _ failure after runs := by cases runs

theorem fault (location : Location) (cause : SyntaxFault) :
    Counts (Parser.fault location cause : Parse α) where
  rest state _ value after runs := by cases runs
  fails state _ failure after runs := by
    cases runs
    rfl

theorem location : Counts Parser.location := get.bind fun _ => .pure _

theorem spanFrom (start : Location) : Counts (Parser.spanFrom start) :=
  location.bind fun _ => .pure _

theorem advance : Counts Parser.advance where
  rest state _ value after runs := by
    obtain ⟨tokens, typedefs, fileEnd⟩ := state
    cases tokens <;> cases runs
    · exact List.suffix_rfl
    · exact List.suffix_cons _ _
  fails state _ failure after runs := by
    obtain ⟨tokens, typedefs, fileEnd⟩ := state
    cases tokens <;> cases runs

theorem skip {next : Unit → Parse β} (first : Counts parser) (rest : Counts (next ())) :
    Counts (discard parser >>= next) :=
  (first.map _).bind fun _ => rest

theorem unexpected (wanted : String) (found : Option Token) :
    Counts (Parser.unexpected wanted found : Parse α) := by
  cases found with
  | none => exact get.bind fun _ => .fault _ _
  | some token => exact .fault _ _

theorem exhausted : Counts (Parser.exhausted : Parse α) := location.bind fun _ => .fault _ _

theorem acceptMark (mark : Mark) : Counts (Parser.acceptMark mark) :=
  get.bind fun _ => .ite (.skip advance (.pure _)) (.pure _)

theorem acceptKeyword (keyword : Keyword) : Counts (Parser.acceptKeyword keyword) :=
  get.bind fun _ => .ite (.skip advance (.pure _)) (.pure _)

theorem expectMark (mark : Mark) (context : String) : Counts (Parser.expectMark mark context) :=
  advance.bind fun found => .ite (.pure _) (.unexpected _ found)

theorem expectKeyword (keyword : Keyword) (context : String) :
    Counts (Parser.expectKeyword keyword context) :=
  advance.bind fun found => .ite (.pure _) (.unexpected _ found)

theorem expectIdentifier (context : String) : Counts (Parser.expectIdentifier context) := by
  refine advance.bind fun found => ?_
  split
  · exact .pure _
  · exact .unexpected _ found

theorem acceptIdentifier : Counts Parser.acceptIdentifier := by
  refine get.bind fun state => ?_
  split
  · exact .skip advance (.pure _)
  · exact .pure _

theorem keeping {change : State → State} (keeps : ∀ state, (change state).tokens = state.tokens) :
    Counts (modify change : Parse Unit) where
  rest state _ value after runs := by
    cases runs
    exact (keeps state).symm ▸ List.suffix_rfl
  fails state _ failure after runs := by cases runs

theorem addTypedef (name : String) : Counts (Parser.addTypedef name) :=
  .keeping fun state => by split <;> rfl

theorem removeTypedef (name : String) : Counts (Parser.removeTypedef name) :=
  .keeping fun _ => rfl

theorem inScope (reads : Counts parser) : Counts (Parser.inScope parser) :=
  get.bind fun _ => reads.bind fun _ => Counts.bind (.keeping fun _ => rfl) fun _ => .pure _

theorem collectWithin {step : Parse (Option (α × Bool))} (steps : Counts step) (budget : Nat) :
    Counts (Parser.collectWithin step budget) := by
  induction budget with
  | zero => exact .exhausted
  | succ budget ih =>
    rw [Parser.collectWithin]
    refine steps.bind fun taken => ?_
    split
    · exact .pure _
    · exact .pure _
    · exact ih.bind fun _ => .pure _

theorem iterateWithin {step : α → Parse (Option α)} (steps : ∀ value, Counts (step value))
    (budget : Nat) (value : α) : Counts (Parser.iterateWithin step budget value) := by
  induction budget generalizing value with
  | zero => exact .exhausted
  | succ budget ih =>
    rw [Parser.iterateWithin]
    refine (steps value).bind fun taken => ?_
    split
    · exact .pure _
    · exact ih _

theorem acceptMarkAs (meaning : Mark → Option α) : Counts (Parser.acceptMarkAs meaning) := by
  refine get.bind fun state => ?_
  split
  · split
    · exact .skip advance (.pure _)
    · exact .pure _
  · exact .pure _

theorem budgeted {production : Nat → Parse α} (reads : ∀ budget, Counts (production budget)) :
    Counts (Parser.budgeted production) :=
  get.bind fun _ => reads _

end Counts

/-! ## Expressions -/

section Expressions

variable {expression assignment conditional binary unary cast suffixed : Parse Expr}
  {typeName : Parse CType} {initializer item : Parse Initializer} {suffixes : Expr → Parse Expr}

theorem expressionForm_counts (values : Counts assignment) (budget : Nat) :
    Counts (expressionForm assignment budget) := by
  have step : Counts (furtherPart assignment) :=
    (Counts.acceptMark _).bind fun _ => .ite (values.bind fun _ => .pure _) (.pure _)
  exact values.bind fun _ => (step.collectWithin budget).bind fun _ =>
    .ite (.pure _) ((Counts.spanFrom _).bind fun _ => .pure _)

theorem assignmentForm_counts (choices : Counts conditional) (values : Counts assignment) :
    Counts (assignmentForm conditional assignment) := by
  refine choices.bind fun left => (Counts.acceptMarkAs _).bind fun operator => ?_
  split
  · exact .pure _
  · exact values.bind fun _ => .pure _

theorem conditionalForm_counts (operands : Counts binary) (inner : Counts expression)
    (choices : Counts conditional) : Counts (conditionalForm binary expression conditional) :=
  operands.bind fun _ => (Counts.acceptMark _).bind fun _ =>
    .ite (inner.bind fun _ => (Counts.expectMark _ _).bind fun _ => choices.bind fun _ => .pure _) (.pure _)

theorem binaryForm_counts (level : Nat) (operands : Counts binary) (budget : Nat) :
    Counts (binaryForm level binary budget) := by
  refine operands.bind fun first => .iterateWithin (fun left => Counts.get.bind fun state => ?_) _ _
  split
  · exact .pure _
  · exact .skip .advance (operands.bind fun _ => .pure _)

theorem castForm_counts (unaries : Counts unary) (casts : Counts cast) (types : Counts typeName)
    (values : Counts initializer) (behind : ∀ operand, Counts (suffixes operand)) :
    Counts (castForm unary cast typeName initializer suffixes) :=
  Counts.get.bind fun _ => .ite unaries (.skip .advance (types.bind fun _ =>
    (Counts.expectMark _ _).bind fun _ => Counts.get.bind fun _ =>
      .ite (values.bind fun _ => (Counts.spanFrom _).bind fun _ => behind _) (casts.bind fun _ => .pure _)))

theorem sizeofForm_counts (start : Location) (unaries : Counts unary) (types : Counts typeName)
    (values : Counts initializer) (behind : ∀ operand, Counts (suffixes operand)) :
    Counts (sizeofForm start unary typeName initializer suffixes) :=
  Counts.get.bind fun _ => .ite (.skip .advance (types.bind fun _ => (Counts.expectMark _ _).bind fun _ =>
      Counts.get.bind fun _ => .ite
        (values.bind fun _ => (Counts.spanFrom _).bind fun _ => (behind _).bind fun _ =>
          (Counts.spanFrom _).bind fun _ => .pure _)
        ((Counts.spanFrom _).bind fun _ => .pure _)))
    (unaries.bind fun _ => .pure _)

theorem unaryForm_counts (unaries : Counts unary) (casts : Counts cast) (operands : Counts suffixed)
    (types : Counts typeName) (values : Counts initializer) (behind : ∀ operand, Counts (suffixes operand)) :
    Counts (unaryForm unary cast suffixed typeName initializer suffixes) := by
  refine Counts.location.bind fun start => (Counts.acceptKeyword _).bind fun isSizeof =>
    .ite (sizeofForm_counts start unaries types values behind)
      ((Counts.acceptMarkAs _).bind fun operator => ?_)
  split
  · exact .ite (unaries.bind fun _ => .pure _) (casts.bind fun _ => .pure _)
  · exact operands

theorem suffixesForm_counts (inner : Counts expression) (values : Counts assignment)
    (types : Counts typeName) (budget : Nat) (operand : Expr) :
    Counts (suffixesForm expression assignment typeName budget operand) := by
  have further (argument : Expr) : Counts (do return some (argument, ← acceptMark .comma)) :=
    (Counts.acceptMark _).bind fun _ => .pure _
  have argument (typesAllowed : Bool) : Counts (argumentStep typesAllowed assignment typeName) :=
    Counts.get.bind fun _ => .ite
      (types.bind fun _ => (Counts.spanFrom _).bind fun _ => (Counts.pure _).bind further)
      (values.bind further)
  have arguments (typesAllowed : Bool) : Counts (argumentsForm typesAllowed assignment typeName budget) :=
    (Counts.acceptMark _).bind fun _ => .ite (.pure _) (((argument _).collectWithin budget).bind
      fun _ => (Counts.expectMark _ _).bind fun _ => .pure _)
  have spanned {build : Span → Expr} (start : Location) :
      Counts (do return some (build (← spanFrom start))) :=
    (Counts.spanFrom start).bind fun _ => .pure _
  refine .iterateWithin (fun operand => Counts.get.bind fun state => ?_) _ _
  split
  · exact .skip .advance (inner.bind fun _ => (Counts.expectMark _ _).bind fun _ => spanned _)
  · exact .skip .advance ((arguments _).bind fun _ => spanned _)
  · exact .skip .advance ((Counts.expectIdentifier _).bind fun _ => spanned _)
  · exact .skip .advance ((Counts.expectIdentifier _).bind fun _ => spanned _)
  · exact .skip .advance (spanned _)
  · exact .skip .advance (spanned _)
  · exact .pure _

theorem stringRun_suffix (tokens : List Token) : (stringRun tokens).2 <:+ tokens := by
  fun_induction stringRun tokens with
  | case1 => exact List.suffix_rfl
  | case2 token rest piece isPiece pieces behind same ih =>
    rw [same] at ih
    exact ih.trans (List.suffix_cons _ _)
  | case3 => exact List.suffix_rfl

theorem stringPieces_counts : Counts stringPieces where
  rest state _ value after runs := by
    cases runs
    exact stringRun_suffix state.tokens
  fails state _ failure after runs := by cases runs

theorem primaryForm_counts (inner : Counts expression) : Counts (primaryForm expression) := by
  refine Counts.location.bind fun start => Counts.advance.bind fun found => ?_
  split
  · exact (Counts.spanFrom _).bind fun _ => .pure _
  · exact (Counts.spanFrom _).bind fun _ => .pure _
  · exact (Counts.spanFrom _).bind fun _ => .pure _
  · exact stringPieces_counts.bind fun _ => (Counts.spanFrom _).bind fun _ => .pure _
  · exact (Counts.spanFrom _).bind fun _ => .pure _
  · exact inner.bind fun _ => (Counts.expectMark _ _).bind fun _ => .pure _
  · exact .fault _ _
  · exact .unexpected _ found

theorem initializerForm_counts (values : Counts assignment) (items : Counts item) (budget : Nat) :
    Counts (initializerForm assignment item budget) := by
  have step : Counts (initializerForm.itemStep item) :=
    Counts.get.bind fun _ => .ite (.pure _) (items.bind fun _ =>
      (Counts.acceptMark _).bind fun _ => .pure _)
  exact Counts.location.bind fun _ => (Counts.acceptMark _).bind fun _ => .ite
    ((step.collectWithin budget).bind fun _ => (Counts.expectMark _ _).bind fun _ =>
      (Counts.spanFrom _).bind fun _ => .pure _)
    (values.bind fun _ => (Counts.spanFrom _).bind fun _ => .pure _)

theorem initializerItemForm_counts (choices : Counts conditional) (values : Counts initializer)
    (budget : Nat) : Counts (initializerItemForm conditional initializer budget) := by
  have step : Counts (designatorStep conditional) :=
    (Counts.acceptMark _).bind fun _ => .ite ((Counts.expectIdentifier _).bind fun _ => .pure _)
      ((Counts.acceptMark _).bind fun _ => .ite (choices.bind fun _ =>
        (Counts.expectMark _ _).bind fun _ => .pure _) (.pure _))
  exact Counts.location.bind fun _ => (step.collectWithin budget).bind fun _ => .ite values
    ((Counts.expectMark _ _).bind fun _ => values.bind fun _ =>
      (Counts.spanFrom _).bind fun _ => .pure _)

end Expressions

/-! ## Types -/

section Types

variable {assignment conditional : Parse Expr} {specifiers : Parse Specifiers}
  {declarator nested : Parse Declarator} {parameters : Parse Derivation}
  {bodied : BodiedType → Parse CType}

theorem qualifierRun_suffix (qualifiers : Qualifiers) (tokens : List Token) :
    (qualifierRun qualifiers tokens).2 <:+ tokens := by
  fun_induction qualifierRun qualifiers tokens with
  | case1 => exact List.suffix_rfl
  | case2 _ token rest _ _ _ _ ih => exact ih.trans (List.suffix_cons _ _)
  | case3 => exact List.suffix_rfl
  | case4 => exact List.suffix_rfl

theorem qualifiers_counts : Counts qualifiers where
  rest state _ value after runs := by
    cases runs
    exact qualifierRun_suffix {} state.tokens
  fails state _ failure after runs := by cases runs

theorem arraySize_counts (values : Counts assignment) : Counts (arraySize assignment) := by
  have ends (size : Option Expr) : Counts (do
      expectMark .rightBracket "array declarator"
      pure size) := (Counts.expectMark _ _).bind fun _ => .pure _
  exact .skip (.acceptKeyword _) (.skip qualifiers_counts (Counts.get.bind fun _ => .ite
    ((Counts.pure _).bind ends) (.ite (.skip .advance ((Counts.pure _).bind ends))
      ((values.map _).bind ends))))

theorem parameterList_counts (given : Counts specifiers) (declared : Counts declarator)
    (budget : Nat) : Counts (parameterList specifiers declarator budget) := by
  have step : Counts (parameterStep specifiers declarator) :=
    (Counts.acceptMark _).bind fun _ => .ite (.pure _) (Counts.location.bind fun _ =>
      given.bind fun _ => declared.bind fun _ => (Counts.spanFrom _).bind fun _ =>
        (Counts.acceptMark _).bind fun _ => .pure _)
  have entries : Counts (do
      let entries ← collectWithin (parameterStep specifiers declarator) budget
      expectMark .rightParen "parameter list"
      pure (Derivation.function (entries.filterMap id) (entries.any Option.isNone))) :=
    (step.collectWithin budget).bind fun _ => (Counts.expectMark _ _).bind fun _ => .pure _
  refine (Counts.acceptMark _).bind fun _ => .ite (.pure _) (Counts.get.bind fun state => ?_)
  split
  · exact .ite ((Counts.fault _ _).bind fun _ => entries) entries
  · exact entries

theorem declaratorForm_counts (inner : Counts nested) (values : Counts assignment)
    (lists : Counts parameters) (budget : Nat) :
    Counts (declaratorForm nested assignment parameters budget) := by
  have pointer : Counts pointerStep :=
    (Counts.acceptMark _).bind fun _ => .ite (qualifiers_counts.bind fun _ => .pure _) (.pure _)
  have core : Counts (declaratorCore nested) :=
    Counts.get.bind fun _ => .ite (.skip .advance (inner.bind fun _ =>
      (Counts.expectMark _ _).bind fun _ => .pure _))
      (Counts.acceptIdentifier.bind fun _ => .pure _)
  have derivation : Counts (derivationStep assignment parameters) :=
    (Counts.acceptMark _).bind fun _ => .ite ((arraySize_counts values).bind fun _ => .pure _)
      ((Counts.acceptMark _).bind fun _ => .ite (lists.bind fun _ => .pure _) (.pure _))
  exact (pointer.collectWithin budget).bind fun _ => core.bind fun _ =>
    (derivation.collectWithin budget).bind fun _ => .pure _

theorem typeNameForm_counts (given : Counts specifiers) (declared : Counts declarator) :
    Counts (typeNameForm specifiers declarator) := by
  refine Counts.location.bind fun start => given.bind fun given =>
    .ite ((Counts.fault _ _).bind fun _ => ?_) ?_
  all_goals
    refine declared.bind fun declared => ?_
    split
    · exact .fault _ _
    · exact .pure _

theorem fieldForm_counts (base : CType) (declared : Counts declarator)
    (choices : Counts conditional) : Counts (fieldForm base declarator conditional) := by
  have ends (declared : Declarator) : Counts (do
      let width ← if ← acceptMark .colon then some <$> conditional else pure none
      pure (Field.mk declared.name (declared.typeFrom base) width)) :=
    (Counts.acceptMark _).bind fun _ => .ite ((choices.map _).bind fun _ => .pure _)
      ((Counts.pure _).bind fun _ => .pure _)
  exact Counts.get.bind fun _ => .ite ((Counts.pure _).bind ends) (declared.bind ends)

theorem recordForm_counts (kind : RecordKind) (given : Counts specifiers)
    (declared : Counts declarator) (choices : Counts conditional) (budget : Nat) :
    Counts (recordForm kind specifiers declarator conditional budget) := by
  have further (base : CType) : Counts (furtherField base declarator conditional) :=
    (Counts.acceptMark _).bind fun _ => .ite
      ((fieldForm_counts _ declared choices).bind fun _ => .pure _) (.pure _)
  have step : Counts (fieldStep specifiers declarator conditional budget) :=
    Counts.get.bind fun _ => .ite (.pure _) ((Counts.acceptMark _).bind fun _ => .ite (.pure _)
      (given.bind fun _ => (Counts.acceptMark _).bind fun _ => .ite (.pure _)
        ((fieldForm_counts _ declared choices).bind fun _ =>
          ((further _).collectWithin budget).bind fun _ =>
            (Counts.expectMark _ _).bind fun _ => .pure _)))
  exact Counts.acceptIdentifier.bind fun _ => (Counts.acceptMark _).bind fun _ => .ite
    ((step.collectWithin budget).bind fun _ => (Counts.expectMark _ _).bind fun _ => .pure _)
    (.pure _)

theorem enumerationForm_counts (choices : Counts conditional) (budget : Nat) :
    Counts (enumerationForm conditional budget) := by
  have ends (name : String) (value : Option Expr) : Counts (do
      return some (Enumerator.mk name value, ← acceptMark .comma)) :=
    (Counts.acceptMark _).bind fun _ => .pure _
  have step : Counts (enumeratorStep conditional) :=
    Counts.get.bind fun _ => .ite (.pure _) ((Counts.expectIdentifier _).bind fun name =>
      (Counts.acceptMark _).bind fun _ => .ite ((choices.map _).bind (ends name))
        ((Counts.pure _).bind (ends name)))
  exact Counts.acceptIdentifier.bind fun _ => (Counts.acceptMark _).bind fun _ => .ite
    ((step.collectWithin budget).bind fun _ => (Counts.expectMark _ _).bind fun _ => .pure _)
    (.pure _)

end Types

/-! ## Specifiers -/

section Words

variable {bodied : BodiedType → Parse CType}

theorem TypeWords.add?_longs {words more : TypeWords} {keyword : Keyword}
    (adds : words.add? keyword = some more) :
    more.longs = words.longs + if keyword = .kwLong then 1 else 0 := by
  unfold TypeWords.add? at adds
  split at adds <;> cases adds <;> rfl

theorem SpecifierWords.addKeyword?_longs {read more : SpecifierWords} {keyword : Keyword}
    (adds : read.addKeyword? keyword = some more) :
    more.words.longs = read.words.longs + if keyword = .kwLong then 1 else 0 := by
  unfold SpecifierWords.addKeyword? at adds
  split at adds
  · next stores =>
    cases adds
    cases keyword <;> first | rfl | cases stores
  split at adds
  · next qualifies =>
    cases adds
    cases keyword <;> first | rfl | cases qualifies
  split at adds
  · next counted =>
    cases adds
    exact TypeWords.add?_longs counted
  split at adds
  · next isInline =>
    cases adds
    rw [isInline]
    rfl
  · cases adds

theorem SpecifierWords.isSome_of_addKeyword? {read more : SpecifierWords} {keyword : Keyword}
    (adds : read.addKeyword? keyword = some more) : (({} : SpecifierWords).addKeyword? keyword).isSome := by
  cases keyword <;> first | rfl | cases adds

theorem SpecifierWords.longs_of_not_hasType {read : SpecifierWords} (untyped : ¬ read.hasType) :
    read.words.longs = 0 := by
  unfold hasType TypeWords.any at untyped
  simp only [Bool.or_eq_true, decide_eq_true_eq, not_or] at untyped
  omega

/-- A step of specifiers leaves room for the words `long` behind those read, and fails at a place. -/
structure StepsFrom (state : State) (step : Parse (Option SpecifierWords)) : Prop where
  rest : ∀ taken after, step.run state = .ok taken after →
    after.tokens <:+ state.tokens ∧ ∀ next ∈ taken, RoomBehind next.words.longs after.tokens
  fails : ∀ failure after, step.run state = .error failure after → failure.isSyntaxError

theorem StepsFrom.get {state : State} {next : State → Parse (Option SpecifierWords)}
    (steps : StepsFrom state (next state)) : StepsFrom state (MonadState.get >>= next) :=
  ⟨steps.rest, steps.fails⟩

theorem StepsFrom.of_counts {state : State} {step : Parse (Option SpecifierWords)}
    (fits : LongsFit state.tokens) (counts : Counts step)
    (uncounted : Delivers step fun taken => ∀ next ∈ taken, next.words.longs = 0) :
    StepsFrom state step where
  rest taken after runs := by
    have isSuffix := counts.rest state fits taken after runs
    refine ⟨isSuffix, fun next member => ?_⟩
    rw [uncounted state taken after runs next member]
    exact (fits.suffix isSuffix).room
  fails := counts.fails state fits

theorem StepsFrom.keyword {state : State} {keyword : Keyword} {read next : SpecifierWords}
    (ahead : state.lexeme? = some (.keyword keyword))
    (room : RoomBehind read.words.longs state.tokens)
    (adds : read.addKeyword? keyword = some next) :
    StepsFrom state (if next.words.fits then do
      discard advance
      pure (some next)
    else throw .overflow) := by
  obtain ⟨tokens, typedefs, fileEnd⟩ := state
  cases tokens with
  | nil => cases ahead
  | cons token rest =>
    have isKeyword : token.lexeme = .keyword keyword := Option.some.inj ahead
    have behind : RoomBehind next.words.longs rest := by
      rw [SpecifierWords.addKeyword?_longs adds]
      have isWord : isSpecifierWord token := by
        rw [isSpecifierWord, isKeyword]
        exact SpecifierWords.isSome_of_addKeyword? adds
      have tail := room.tail isWord
      simpa only [isLong, isKeyword, beq_iff_eq, Lexeme.keyword.injEq] using tail
    rw [if_pos (show next.words.fits from decide_eq_true behind.fits)]
    constructor
    · intro taken after runs
      cases runs
      refine ⟨List.suffix_cons _ _, fun other member => ?_⟩
      cases member
      exact behind
    · intro failure after runs
      cases runs

theorem specifierStep_steps (bodies : ∀ kind, Counts (bodied kind)) {read : SpecifierWords}
    {state : State} (fits : LongsFit state.tokens) (room : RoomBehind read.words.longs state.tokens) :
    StepsFrom state (specifierStep bodied read) := by
  have stops : StepsFrom state (pure none) :=
    .of_counts fits (.pure _) (.pure fun next member => nomatch member)
  refine .get ?_
  split
  · next keyword ahead =>
    split
    · next kind isBodied =>
      split
      · exact stops
      · next untyped =>
        have uncounted := SpecifierWords.longs_of_not_hasType untyped
        refine .of_counts fits (.skip .advance ((bodies kind).bind fun _ => .pure _)) ?_
        refine .after fun _ => .after fun type => .pure fun next member => ?_
        cases member
        exact uncounted
    · split
      · next next adds =>
        exact .keyword ahead room adds
      · exact stops
  · split
    · next name ahead isName =>
      have uncounted : read.words.longs = 0 := SpecifierWords.longs_of_not_hasType
        ((Bool.not_eq_true _).mpr (Bool.not_eq_true' _ ▸ (Bool.and_eq_true _ _ ▸ isName).1))
      refine .of_counts fits (.skip .advance (.pure _)) (.after fun _ => .pure fun next member => ?_)
      cases member
      exact uncounted
    · exact stops
  · exact stops

theorem iterateSpecifiers_steps (bodies : ∀ kind, Counts (bodied kind)) (budget : Nat)
    {read : SpecifierWords} {state : State} (fits : LongsFit state.tokens)
    (room : RoomBehind read.words.longs state.tokens) :
    (∀ value after, (iterateWithin (specifierStep bodied) budget read).run state = .ok value after →
      after.tokens <:+ state.tokens) ∧ ∀ failure after,
      (iterateWithin (specifierStep bodied) budget read).run state = .error failure after →
        failure.isSyntaxError := by
  induction budget generalizing read state with
  | zero =>
    exact ⟨Counts.exhausted.rest state fits, Counts.exhausted.fails state fits⟩
  | succ budget ih =>
    have steps := specifierStep_steps bodies fits room
    rw [iterateWithin]
    constructor
    · intro value after runs
      obtain ⟨taken, between, takes, runs⟩ := bind_ok runs
      obtain ⟨isSuffix, roomy⟩ := steps.rest taken between takes
      cases taken with
      | none =>
        cases runs
        exact isSuffix
      | some next =>
        exact ((ih (fits.suffix isSuffix) (roomy next rfl)).1 value after runs).trans isSuffix
    · intro failure after runs
      rw [EStateM.run_bind] at runs
      cases takes : (specifierStep bodied read).run state with
      | ok taken between =>
        rw [takes] at runs
        obtain ⟨isSuffix, roomy⟩ := steps.rest taken between takes
        cases taken with
        | none => cases runs
        | some next => exact (ih (fits.suffix isSuffix) (roomy next rfl)).2 failure after runs
      | error fault behind =>
        rw [takes] at runs
        cases runs
        exact steps.fails failure _ takes

theorem specifiers_counts (bodies : ∀ kind, Counts (bodied kind)) (budget : Nat) :
    Counts (specifiers bodied budget) := by
  have words : Counts (iterateWithin (specifierStep bodied) budget {}) := {
    rest := fun state fits => (iterateSpecifiers_steps bodies budget fits fits.room).1
    fails := fun state fits => (iterateSpecifiers_steps bodies budget fits fits.room).2 }
  refine Counts.location.bind fun _ => words.bind fun read => .ite (Counts.get.bind fun state => ?_)
    (.pure _)
  split
  · exact .unexpected _ _
  · exact .fault _ _

end Words

/-! ## Declarations and statements -/

section Statements

variable {given : Parse Specifiers} {declarator : Parse Declarator}
  {values : Parse Initializer} {expression conditional : Parse Expr}
  {localDeclaration block statement : Parse Statement}

theorem initDeclarator_counts (words : Specifiers) (start : Location) (name : Option String)
    (type : CType) (initializes : Counts values) :
    Counts (initDeclarator words start name type values) := by
  cases name with
  | none => exact Counts.location.bind fun _ => .fault _ _
  | some name =>
    have built (value : Option Initializer) : Counts (do
        return {
          name := name
          type := type
          storage := words.storage
          isInline := words.isInline
          initializer := value
          span := ← spanFrom start : Declaration }) := (Counts.spanFrom _).bind fun _ => .pure _
    have valued : Counts (do
        let value ← if ← acceptMark .equal then some <$> values else pure none
        return {
          name := name
          type := type
          storage := words.storage
          isInline := words.isInline
          initializer := value
          span := ← spanFrom start : Declaration }) :=
      (Counts.acceptMark _).bind fun _ => .ite ((initializes.map _).bind built) (built none)
    exact .ite ((Counts.addTypedef _).bind fun _ => valued)
      ((Counts.removeTypedef _).bind fun _ => valued)

theorem initDeclarators_counts (words : Specifiers) (start : Location) (first : Declarator)
    (declares : Counts declarator) (initializes : Counts values) (budget : Nat) :
    Counts (initDeclarators words start first declarator values budget) := by
  have further : Counts (furtherDeclarator words start declarator values) :=
    (Counts.acceptMark _).bind fun _ => .ite (declares.bind fun _ =>
      (initDeclarator_counts words start _ _ initializes).bind fun _ => .pure _) (.pure _)
  exact (initDeclarator_counts words start _ _ initializes).bind fun _ =>
    (further.collectWithin budget).bind fun _ => (Counts.expectMark _ _).bind fun _ => .pure _

theorem localDeclarationForm_counts (specifies : Counts given) (declares : Counts declarator)
    (initializes : Counts values) (budget : Nat) :
    Counts (localDeclarationForm given declarator values budget) :=
  Counts.location.bind fun _ => specifies.bind fun _ => (Counts.acceptMark _).bind fun _ =>
    .ite ((Counts.spanFrom _).bind fun _ => .pure _) (declares.bind fun _ =>
      (initDeclarators_counts _ _ _ declares initializes budget).bind fun _ =>
        (Counts.spanFrom _).bind fun _ => .pure _)

theorem conditionForm_counts (evaluates : Counts expression) (context : String) :
    Counts (conditionForm expression context) :=
  (Counts.expectMark _ _).bind fun _ => evaluates.bind fun _ =>
    (Counts.expectMark _ _).bind fun _ => .pure _

theorem blockForm_counts (acts : Counts statement) (budget : Nat) : Counts (blockForm statement budget) := by
  have step : Counts (statementStep statement) :=
    Counts.get.bind fun _ => .ite (.pure _) (acts.bind fun _ => .pure _)
  exact Counts.location.bind fun _ => (Counts.expectMark _ _).bind fun _ =>
    (Counts.inScope ((step.collectWithin budget).bind fun _ =>
      (Counts.expectMark _ _).bind fun _ => .pure _)).bind fun _ =>
        (Counts.spanFrom _).bind fun _ => .pure _

theorem ifForm_counts (evaluates : Counts expression) (acts : Counts statement) :
    Counts (ifForm expression statement) := by
  refine Counts.location.bind fun start => (Counts.expectKeyword _ _).bind fun _ =>
    (conditionForm_counts evaluates _).bind fun condition => acts.bind fun thenBranch => ?_
  have ends (elseBranch : Option Statement) : Counts (do
      return Statement.ifElse (← spanFrom start) condition thenBranch elseBranch) :=
    (Counts.spanFrom _).bind fun _ => .pure _
  exact (Counts.acceptKeyword _).bind fun _ => .ite ((acts.map _).bind ends) (ends none)

theorem optionalBefore_counts (mark : Mark) (context : String) (evaluates : Counts expression) :
    Counts (optionalBefore mark context expression) := by
  have ends (value : Option Expr) : Counts (do
      expectMark mark context
      pure value) := (Counts.expectMark _ _).bind fun _ => .pure _
  exact Counts.get.bind fun _ => .ite (ends none) ((evaluates.map _).bind ends)

theorem forForm_counts (evaluates : Counts expression) (declares : Counts localDeclaration)
    (acts : Counts statement) : Counts (forForm expression localDeclaration statement) := by
  have init : Counts (loopInitForm expression localDeclaration) :=
    (Counts.acceptMark _).bind fun _ => .ite (.pure _) (Counts.get.bind fun _ => .ite
      (declares.map _) (Counts.location.bind fun _ => evaluates.bind fun _ =>
        (Counts.expectMark _ _).bind fun _ => (Counts.spanFrom _).bind fun _ => .pure _))
  exact Counts.location.bind fun _ => (Counts.expectKeyword _ _).bind fun _ =>
    (Counts.expectMark _ _).bind fun _ => .inScope (init.bind fun _ =>
      (optionalBefore_counts _ _ evaluates).bind fun _ =>
        (optionalBefore_counts _ _ evaluates).bind fun _ => acts.bind fun _ =>
          (Counts.spanFrom _).bind fun _ => .pure _)

theorem declarationOrExpressionForm_counts (evaluates : Counts expression)
    (declares : Counts localDeclaration) : Counts (declarationOrExpressionForm expression localDeclaration) :=
  Counts.get.bind fun _ => .ite declares (evaluates.bind fun _ =>
    (Counts.expectMark _ _).bind fun _ => (Counts.spanFrom _).bind fun _ => .pure _)

theorem wordForm_counts (context : String) (build : Span → Statement) : Counts (wordForm context build) :=
  Counts.location.bind fun _ => .skip .advance ((Counts.expectMark _ _).bind fun _ =>
    (Counts.spanFrom _).bind fun _ => .pure _)

theorem statementForm_counts (evaluates : Counts expression) (chooses : Counts conditional)
    (declares : Counts localDeclaration) (blocks : Counts block) (acts : Counts statement) :
    Counts (statementForm expression conditional localDeclaration block statement) := by
  have condition := conditionForm_counts evaluates
  have spanned {build : Span → Statement} (start : Location) :
      Counts (do return build (← spanFrom start)) := (Counts.spanFrom start).bind fun _ => .pure _
  refine Counts.get.bind fun state => ?_
  split
  · exact .fault _ _
  · exact blocks
  · exact ifForm_counts evaluates acts
  · exact Counts.location.bind fun _ => (Counts.expectKeyword _ _).bind fun _ =>
      (condition _).bind fun _ => acts.bind fun _ => spanned _
  · exact Counts.location.bind fun _ => (Counts.expectKeyword _ _).bind fun _ =>
      acts.bind fun _ => (Counts.expectKeyword _ _).bind fun _ => (condition _).bind fun _ =>
        (Counts.expectMark _ _).bind fun _ => spanned _
  · exact forForm_counts evaluates declares acts
  · exact Counts.location.bind fun _ => (Counts.expectKeyword _ _).bind fun _ =>
      (condition _).bind fun _ => acts.bind fun _ => spanned _
  · exact Counts.location.bind fun _ => .skip .advance (chooses.bind fun _ =>
      (Counts.expectMark _ _).bind fun _ => acts.bind fun _ => spanned _)
  · exact Counts.location.bind fun _ => .skip .advance ((Counts.expectMark _ _).bind fun _ =>
      acts.bind fun _ => spanned _)
  · exact wordForm_counts _ _
  · exact wordForm_counts _ _
  · exact Counts.location.bind fun _ => .skip .advance
      ((optionalBefore_counts _ _ evaluates).bind fun _ => spanned _)
  · exact Counts.location.bind fun _ => .skip .advance ((Counts.expectIdentifier _).bind fun _ =>
      (Counts.expectMark _ _).bind fun _ => spanned _)
  · exact .skip .advance (spanned _)
  · exact .fault _ _
  · exact .ite (Counts.location.bind fun _ => .skip .advance (.skip .advance (acts.bind fun _ =>
      spanned _))) (declarationOrExpressionForm_counts evaluates declares)
  · exact declarationOrExpressionForm_counts evaluates declares

end Statements

/-! ## The grammar -/

namespace Grammar

/-- Every production of declarators and expressions counts within a budget. -/
structure Counted (budget : Nat) : Prop where
  expression : Counts (expression budget)
  assignment : Counts (assignment budget)
  conditional : Counts (conditional budget)
  binary : ∀ level, Counts (binary budget level)
  cast : Counts (cast budget)
  unary : Counts (unary budget)
  suffixed : Counts (suffixed budget)
  suffixes : ∀ operand, Counts (suffixes budget operand)
  primary : Counts (primary budget)
  initializer : Counts (initializer budget)
  initializerItem : Counts (initializerItem budget)
  typeName : Counts (typeName budget)
  specifiersOf : Counts (specifiersOf budget)
  bodied : ∀ kind, Counts (bodied budget kind)
  declarator : Counts (declarator budget)
  parameters : Counts (parameters budget)

theorem counted (budget : Nat) : Counted budget := by
  induction budget with
  | zero =>
    exact {
      expression := .exhausted
      assignment := .exhausted
      conditional := .exhausted
      binary := fun _ => .exhausted
      cast := .exhausted
      unary := .exhausted
      suffixed := .exhausted
      suffixes := fun _ => .exhausted
      primary := .exhausted
      initializer := .exhausted
      initializerItem := .exhausted
      typeName := .exhausted
      specifiersOf := .exhausted
      bodied := fun kind => .exhausted
      declarator := .exhausted
      parameters := .exhausted }
  | succ budget ih =>
    exact {
      expression := expressionForm_counts ih.assignment budget
      assignment := assignmentForm_counts ih.conditional ih.assignment
      conditional := conditionalForm_counts (ih.binary 0) ih.expression ih.conditional
      binary := fun level => .ite ih.cast (binaryForm_counts level (ih.binary (level + 1)) budget)
      cast := castForm_counts ih.unary ih.cast ih.typeName ih.initializer ih.suffixes
      unary := unaryForm_counts ih.unary ih.cast ih.suffixed ih.typeName ih.initializer ih.suffixes
      suffixed := ih.primary.bind ih.suffixes
      suffixes := suffixesForm_counts ih.expression ih.assignment ih.typeName budget
      primary := primaryForm_counts ih.expression
      initializer := initializerForm_counts ih.assignment ih.initializerItem budget
      initializerItem := initializerItemForm_counts ih.conditional ih.initializer budget
      typeName := typeNameForm_counts ih.specifiersOf ih.declarator
      specifiersOf := specifiers_counts ih.bodied budget
      bodied := fun kind => by
        cases kind with
        | record kind =>
          exact recordForm_counts kind ih.specifiersOf ih.declarator ih.conditional budget
        | enumeration => exact enumerationForm_counts ih.conditional budget
      declarator := declaratorForm_counts ih.declarator ih.assignment ih.parameters budget
      parameters := parameterList_counts ih.specifiersOf ih.declarator budget }

theorem localDeclaration_counts (budget : Nat) : Counts (localDeclaration budget) := by
  cases budget with
  | zero => exact .exhausted
  | succ budget =>
    have inner := counted budget
    exact localDeclarationForm_counts inner.specifiersOf inner.declarator inner.initializer budget

theorem statement_counts (budget : Nat) : Counts (statement budget) ∧ Counts (block budget) := by
  induction budget with
  | zero => exact ⟨.exhausted, .exhausted⟩
  | succ budget ih =>
    have inner := counted budget
    exact ⟨statementForm_counts inner.expression inner.conditional (localDeclaration_counts budget)
      ih.2 ih.1, blockForm_counts ih.1 budget⟩

theorem item_counts (budget : Nat) : Counts (item budget) := by
  have inner := counted budget
  refine Counts.location.bind fun start => (Counts.acceptMark _).bind fun _ => .ite (.pure _) ?_
  refine inner.specifiersOf.bind fun given => (Counts.acceptMark _).bind fun _ => .ite
    ((Counts.spanFrom _).bind fun _ => .pure _) ?_
  refine inner.declarator.bind fun declared => Counts.get.bind fun state => ?_
  split
  · split
    · exact .fault _ _
    · exact Counts.bind ((statement_counts budget).2.bind fun _ => (Counts.spanFrom _).bind
        fun _ => .pure _) fun _ => .pure _
  · exact (initDeclarators_counts given start declared inner.declarator inner.initializer
      budget).bind fun _ => .pure _

theorem unit_counts (budget : Nat) : Counts (unit budget) := by
  have step : Counts (itemStep budget) :=
    Counts.get.bind fun _ => .ite (.pure _) ((item_counts budget).bind fun _ => .pure _)
  exact Counts.location.bind fun _ => (step.collectWithin budget).bind fun _ =>
    (Counts.spanFrom _).bind fun _ => .pure _

end Grammar

theorem compilationUnit_counts : Counts compilationUnit := .budgeted Grammar.unit_counts

theorem LongsFit.of_count {tokens : List Token} (few : tokens.countP isLong < TypeWords.longBound) :
    LongsFit tokens :=
  fun _ inside _ => Nat.lt_of_le_of_lt (inside.sublist.countP_le) few

end Parser

/-- Where a text is short enough, its markers leave room for the lines behind them, and its words
`long` can be counted, no counter leaves its type: neither those of lines and columns wherever the
lexer stands, nor the depth of an annotation behind any of its tokens, nor the count of words, so
that the text is a unit or has an error at a place. -/
theorem CompilationUnit.parse_counted {text file : String} (typedefs : List String)
    (short : text.length + 1 < Text.lineBound) (markers : Lexer.MarkersFit text file)
    (longs : ∀ tokens, Lexer.tokenize text file = .ok tokens →
      Parser.LongsFit ( Annotation.strip tokens)) :
    (∀ cursor, Lexer.StandsAt text file cursor →
      cursor.overflowed = false ∧ cursor.line < Text.lineBound ∧ cursor.column < Text.lineBound) ∧
    (∀ tokens before depth, Lexer.tokenize text file = .ok tokens → before <+: tokens →
      ( Annotation.placeBehind before).2 = .inside depth → 0 < depth) ∧
    ((∃ unit, CompilationUnit.parse text file typedefs = .ok unit) ∨
      ∃ failure, CompilationUnit.parse text file typedefs = .error failure ∧
        failure.isSyntaxError) := by
  refine ⟨fun cursor stands => ?_, fun tokens before depth lexes leads inside => ?_, ?_⟩
  · have bounded := stands.bounded short markers
    have line := bounded.line
    have column := bounded.column
    exact ⟨bounded.fits, by omega, by omega⟩
  · have counted := Annotation.placeBehind_isCounted before
    rw [inside] at counted
    exact counted
  · unfold CompilationUnit.parse
    cases lexes : Lexer.tokenize text file with
    | error failure =>
      exact .inr ⟨failure, rfl, Lexer.isSyntaxError_of_tokenize short markers lexes⟩
    | ok tokens =>
      change (∃ unit, Parser.runOn Parser.compilationUnit tokens typedefs = .ok unit) ∨
        ∃ failure, Parser.runOn Parser.compilationUnit tokens typedefs = .error failure ∧
          failure.isSyntaxError
      unfold Parser.runOn
      cases runs : Parser.compilationUnit.run (.ofTokens tokens typedefs) with
      | ok unit after => exact .inl ⟨unit, rfl⟩
      | error failure after =>
        exact .inr ⟨failure, rfl,
          Parser.compilationUnit_counts.fails _ (longs tokens lexes) failure after runs⟩

theorem CompilationUnit.parse_counted_marker :
    (∃ unit, CompilationUnit.parse "# 7 \"f\"\nunsigned long long x __attribute__((used));" "<input>" [] =
        .ok unit) ∨
      ∃ failure, CompilationUnit.parse "# 7 \"f\"\nunsigned long long x __attribute__((used));" "<input>"
        [] = .error failure ∧ failure.isSyntaxError := by
  have short : "# 7 \"f\"\nunsigned long long x __attribute__((used));".length + 1 <
    Text.lineBound := by decide +kernel
  refine (CompilationUnit.parse_counted [] short (.of_suffixes short ?_) ?_).2.2
  · intro cursor inside _ sign number rest following reads value
    have whole : cursor.rest <:+
        '#' :: " 7 \"f\"\nunsigned long long x __attribute__((used));".toList := inside
    rcases List.suffix_cons_iff.mp whole with whole | behind
    · rw [whole] at reads ⊢
      have marker : Lexer.readDirective "# 7 \"f\"".toList =
        .linemarker "7".toList "\"f\"".toList := by rfl
      have number : Text.boundedDecimal? Text.lineBound "7".toList = some 7 := by decide +kernel
      obtain ⟨rfl, -⟩ := Lexer.Directive.linemarker.inj (marker.symm.trans reads)
      obtain rfl := Option.some.inj (number.symm.trans value)
      decide +kernel
    · exact absurd (behind.subset (List.mem_of_mem_head? sign)) (by decide +kernel)
  · intro tokens lexes
    have few : (Lexer.tokenize
        "# 7 \"f\"\nunsigned long long x __attribute__((used));").toOption.all fun tokens =>
      decide (( Annotation.strip tokens).countP Parser.isLong < Parser.TypeWords.longBound) := by
      decide +kernel
    rw [lexes] at few
    exact .of_count (of_decide_eq_true few)

/-- A marker can give the last number that fits to a line, and then the line behind it has none. -/
theorem CompilationUnit.not_parse_counted :
    ¬ ∀ text : String, text.length < Text.lineBound →
      (∃ unit, CompilationUnit.parse text = .ok unit) ∨
        ∃ failure, CompilationUnit.parse text = .error failure ∧ failure.isSyntaxError := by
  intro always
  have lexes : Lexer.tokenize "# 4294967295 \"f\"\n\nint x;" = .error .overflow := by
    decide +kernel
  have overflows : CompilationUnit.parse "# 4294967295 \"f\"\n\nint x;" = .error .overflow := by
    rw [CompilationUnit.parse, lexes]
    rfl
  rcases always "# 4294967295 \"f\"\n\nint x;" (by decide +kernel) with
    ⟨unit, parses⟩ | ⟨failure, fails, isSyntaxError⟩
  · rw [overflows] at parses
    cases parses
  · rw [overflows] at fails
    cases fails
    cases isSyntaxError

end InlineMacro
