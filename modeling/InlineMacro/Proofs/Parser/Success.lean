import InlineMacro.Parser.Grammar
import InlineMacro.Proofs.Parser.Phrases
import InlineMacro.Proofs.Syntax.Unplaced

/-!
# Parsers that succeed

A parser takes some tokens from the front of a list and comes to a result with a property. The rules
follow the steps of a parser. Declarations change the names of types, and nothing else does.

The first lexeme of a phrase, and the second behind an opening parenthesis, tell which production
reads it: no expression starts as a type does, and nothing else starts as an expression does.
-/

set_option autoImplicit false

namespace InlineMacro.Parser

def next? (tokens : List Token) : Option Lexeme := tokens.head?.map Token.lexeme

def Spelled : List Lexeme → List Token → List Token → Prop
  | [], tokens, rest => tokens = rest
  | kind :: lexemes, tokens, rest =>
    ∃ token behind, tokens = token :: behind ∧ token.lexeme = kind ∧ Spelled lexemes behind rest

namespace Spelled

variable {lexemes more : List Lexeme} {tokens rest : List Token}

theorem append (spelled : Spelled (lexemes ++ more) tokens rest) :
    ∃ behind, Spelled lexemes tokens behind ∧ Spelled more behind rest := by
  induction lexemes generalizing tokens with
  | nil => exact ⟨tokens, rfl, spelled⟩
  | cons kind lexemes ih =>
    obtain ⟨token, behind, same, isKind, others⟩ := spelled
    obtain ⟨between, first, second⟩ := ih others
    exact ⟨between, ⟨token, behind, same, isKind, first⟩, second⟩

theorem next?_eq (spelled : Spelled lexemes tokens rest) : next? tokens = lexemes.head?.or (next? rest) := by
  cases lexemes with
  | nil => rw [show tokens = rest from spelled]; rfl
  | cons kind lexemes =>
    obtain ⟨token, behind, rfl, isKind, -⟩ := spelled
    simp [next?, isKind]

theorem of_map {lexemes : List Lexeme} {tokens : List Token} (rest : List Token)
    (same : tokens.map Token.lexeme = lexemes) : Spelled lexemes (tokens ++ rest) rest := by
  induction tokens generalizing lexemes with
  | nil =>
    cases same
    rfl
  | cons token tokens ih =>
    subst same
    exact ⟨token, tokens ++ rest, rfl, rfl, ih rfl⟩

end Spelled

variable {α β : Type}

/-- A parser takes the tokens up to a rest of them and comes to a result with a property, behind which
other names are those of types. -/
def Leads (typedefs : List String) (fileEnd : Location) (parser : Parse α) (tokens rest : List Token)
    (behind : List String) (post : α → Prop) : Prop :=
  ∃ value, parser.run ⟨tokens, typedefs, fileEnd⟩ = .ok value ⟨rest, behind, fileEnd⟩ ∧ post value

/-- A parser takes the tokens up to a rest of them and comes to a result with a property. The names of
types stay what they are. -/
abbrev Takes (typedefs : List String) (fileEnd : Location) (parser : Parse α) (tokens rest : List Token)
    (post : α → Prop) : Prop :=
  Leads typedefs fileEnd parser tokens rest typedefs post

namespace Leads

variable {typedefs names behind : List String} {fileEnd : Location} {tokens between rest : List Token}
  {token : Token} {parser other : Parse α} {post middle : α → Prop}

theorem pure {value : α} (holds : post value) :
    Takes typedefs fileEnd (Pure.pure value) tokens tokens post := ⟨value, rfl, holds⟩

theorem bind {next : α → Parse β} {result : β → Prop}
    (first : Leads typedefs fileEnd parser tokens between names middle)
    (others : ∀ value, middle value → Leads names fileEnd (next value) between rest behind result) :
    Leads typedefs fileEnd (parser >>= next) tokens rest behind result := by
  obtain ⟨value, runs, given⟩ := first
  obtain ⟨found, goesOn, holds⟩ := others value given
  refine ⟨found, ?_, holds⟩
  rw [EStateM.run_bind, runs]
  exact goesOn

theorem mono {weaker : α → Prop} (takes : Leads typedefs fileEnd parser tokens rest behind post)
    (weakens : ∀ value, post value → weaker value) :
    Leads typedefs fileEnd parser tokens rest behind weaker := by
  obtain ⟨value, runs, holds⟩ := takes
  exact ⟨value, runs, weakens value holds⟩

theorem map {change : α → β} {result : β → Prop}
    (takes : Leads typedefs fileEnd parser tokens rest behind fun value => result (change value)) :
    Leads typedefs fileEnd (change <$> parser) tokens rest behind result := by
  rw [map_eq_pure_bind]
  exact takes.bind fun _ holds => .pure holds

theorem get {next : State → Parse α}
    (takes : Leads typedefs fileEnd (next ⟨tokens, typedefs, fileEnd⟩) tokens rest behind post) :
    Leads typedefs fileEnd (MonadState.get >>= next) tokens rest behind post := takes

theorem setTokens {next : PUnit → Parse α} (takes : Leads typedefs fileEnd (next ⟨⟩) between rest behind post) :
    Leads typedefs fileEnd (MonadStateOf.set (⟨between, typedefs, fileEnd⟩ : State) >>= next) tokens rest behind post := takes

theorem location {next : Location → Parse α}
    (takes : ∀ location, Leads typedefs fileEnd (next location) tokens rest behind post) :
    Leads typedefs fileEnd (Parser.location >>= next) tokens rest behind post := takes _

theorem spanFrom {start : Location} {next : Span → Parse α}
    (takes : ∀ span, Leads typedefs fileEnd (next span) tokens rest behind post) :
    Leads typedefs fileEnd (Parser.spanFrom start >>= next) tokens rest behind post := takes _

theorem advance {next : Option Token → Parse α}
    (takes : Leads typedefs fileEnd (next (some token)) tokens rest behind post) :
    Leads typedefs fileEnd (Parser.advance >>= next) (token :: tokens) rest behind post := takes

theorem skip {next : Unit → Parse α} (takes : Leads typedefs fileEnd (next ()) tokens rest behind post) :
    Leads typedefs fileEnd (discard Parser.advance >>= next) (token :: tokens) rest behind post := takes

theorem discard {next : Unit → Parse β} {result : β → Prop}
    (first : Leads typedefs fileEnd parser tokens between names middle)
    (others : Leads names fileEnd (next ()) between rest behind result) :
    Leads typedefs fileEnd (Functor.discard parser >>= next) tokens rest behind result := by
  obtain ⟨value, runs, -⟩ := first
  have discards : Leads typedefs fileEnd (Functor.discard parser) tokens between names fun _ => True := by
    refine ⟨(), ?_, trivial⟩
    change EStateM.run (parser >>= fun _ => Pure.pure ()) _ = _
    rw [EStateM.run_bind, runs]
    rfl
  exact discards.bind fun _ _ => others

variable {condition : Prop}

theorem ite [Decidable condition] (yes : condition)
    (takes : Leads typedefs fileEnd parser tokens rest behind post) :
    Leads typedefs fileEnd (if condition then parser else other) tokens rest behind post := by
  rwa [if_pos yes]

theorem iteNot [Decidable condition] (no : ¬condition)
    (takes : Leads typedefs fileEnd other tokens rest behind post) :
    Leads typedefs fileEnd (if condition then parser else other) tokens rest behind post := by
  rwa [if_neg no]

theorem iteBind [Decidable condition] {next : α → Parse β} {result : β → Prop}
    (takes : Leads typedefs fileEnd ((if condition then parser else other) >>= next) tokens rest behind
      result) :
    Leads typedefs fileEnd (if condition then parser >>= next else other >>= next) tokens rest behind
      result := by
  by_cases holds : condition
  · rw [if_pos holds] at takes ⊢
    exact takes
  · rw [if_neg holds] at takes ⊢
    exact takes

/-! ## Single tokens -/

variable {sign : Mark}

theorem acceptMark {next : Bool → Parse α} (same : token.lexeme = .mark sign)
    (takes : Leads typedefs fileEnd (next true) tokens rest behind post) :
    Leads typedefs fileEnd (Parser.acceptMark sign >>= next) (token :: tokens) rest behind post := by
  have isAt : State.isAtMark ⟨token :: tokens, typedefs, fileEnd⟩ sign := by
    simp [State.isAtMark, State.lexeme?, same]
  have accepts : Takes typedefs fileEnd (Parser.acceptMark sign) (token :: tokens) tokens (· = true) := by
    refine .get ?_
    rw [if_pos isAt]
    exact ⟨true, rfl, rfl⟩
  exact accepts.bind fun _ accepted => accepted ▸ takes

theorem noMark {next : Bool → Parse α} (absent : next? tokens ≠ some (.mark sign))
    (takes : Leads typedefs fileEnd (next false) tokens rest behind post) :
    Leads typedefs fileEnd (Parser.acceptMark sign >>= next) tokens rest behind post := by
  have notAt : ¬State.isAtMark ⟨tokens, typedefs, fileEnd⟩ sign := by
    simpa [State.isAtMark, State.lexeme?, next?] using absent
  have refuses : Takes typedefs fileEnd (Parser.acceptMark sign) tokens tokens (· = false) := by
    refine .get ?_
    rw [if_neg notAt]
    exact ⟨false, rfl, rfl⟩
  exact refuses.bind fun _ refused => refused ▸ takes

theorem acceptKeyword {word : Keyword} {next : Bool → Parse α} (same : token.lexeme = .keyword word)
    (takes : Leads typedefs fileEnd (next true) tokens rest behind post) :
    Leads typedefs fileEnd (Parser.acceptKeyword word >>= next) (token :: tokens) rest behind post := by
  have isAt : State.isAtKeyword ⟨token :: tokens, typedefs, fileEnd⟩ word := by
    simp [State.isAtKeyword, State.lexeme?, same]
  have accepts : Takes typedefs fileEnd (Parser.acceptKeyword word) (token :: tokens) tokens (· = true) := by
    refine .get ?_
    rw [if_pos isAt]
    exact ⟨true, rfl, rfl⟩
  exact accepts.bind fun _ accepted => accepted ▸ takes

theorem noKeyword {word : Keyword} {next : Bool → Parse α} (absent : next? tokens ≠ some (.keyword word))
    (takes : Leads typedefs fileEnd (next false) tokens rest behind post) :
    Leads typedefs fileEnd (Parser.acceptKeyword word >>= next) tokens rest behind post := by
  have notAt : ¬State.isAtKeyword ⟨tokens, typedefs, fileEnd⟩ word := by
    simpa [State.isAtKeyword, State.lexeme?, next?] using absent
  have refuses : Takes typedefs fileEnd (Parser.acceptKeyword word) tokens tokens (· = false) := by
    refine .get ?_
    rw [if_neg notAt]
    exact ⟨false, rfl, rfl⟩
  exact refuses.bind fun _ refused => refused ▸ takes

theorem expect {kind : Lexeme} {context : String} {next : Unit → Parse α}
    (same : token.lexeme = kind) (takes : Leads typedefs fileEnd (next ()) tokens rest behind post) :
    Leads typedefs fileEnd (Parser.expect kind context >>= next) (token :: tokens) rest behind post := by
  have expects : Takes typedefs fileEnd (Parser.expect kind context) (token :: tokens) tokens
      fun _ => True := by
    refine .advance ?_
    rw [Option.map_some, same, if_pos rfl]
    exact .pure trivial
  exact expects.bind fun _ _ => takes

theorem expectIdentifier {name context : String} {next : String → Parse α}
    (same : token.lexeme = .identifier name)
    (takes : Leads typedefs fileEnd (next name) tokens rest behind post) :
    Leads typedefs fileEnd (Parser.expectIdentifier context >>= next) (token :: tokens) rest behind post := by
  have expects : Takes typedefs fileEnd (Parser.expectIdentifier context) (token :: tokens) tokens
      (· = name) := by
    refine .advance ?_
    rw [Option.map_some, same]
    exact .pure rfl
  exact expects.bind fun _ found => found ▸ takes

theorem acceptIdentifier {name : String} {next : Option String → Parse α}
    (same : token.lexeme = .identifier name)
    (takes : Leads typedefs fileEnd (next (some name)) tokens rest behind post) :
    Leads typedefs fileEnd (Parser.acceptIdentifier >>= next) (token :: tokens) rest behind post := by
  have accepts : Takes typedefs fileEnd Parser.acceptIdentifier (token :: tokens) tokens
      (· = some name) := by
    refine .get ?_
    simp only [State.lexeme?, List.head?_cons, Option.map_some, same]
    exact ⟨_, rfl, rfl⟩
  exact accepts.bind fun _ found => found ▸ takes

theorem noIdentifier {next : Option String → Parse α}
    (absent : ∀ name, next? tokens ≠ some (.identifier name))
    (takes : Leads typedefs fileEnd (next none) tokens rest behind post) :
    Leads typedefs fileEnd (Parser.acceptIdentifier >>= next) tokens rest behind post := by
  have refuses : Takes typedefs fileEnd Parser.acceptIdentifier tokens tokens (· = none) := by
    refine .get ?_
    split
    · next name ahead => exact absurd ahead (absent name)
    · exact .pure rfl
  exact refuses.bind fun _ found => found ▸ takes

theorem acceptMarkAs {meaning : Mark → Option β} {value : β}
    {next : Option β → Parse α} (same : token.lexeme = .mark sign) (means : meaning sign = some value)
    (takes : Leads typedefs fileEnd (next (some value)) tokens rest behind post) :
    Leads typedefs fileEnd (Parser.acceptMarkAs meaning >>= next) (token :: tokens) rest behind post := by
  have accepts : Takes typedefs fileEnd (Parser.acceptMarkAs meaning) (token :: tokens) tokens
      (· = some value) := by
    refine .get ?_
    simp only [State.lexeme?, List.head?_cons, Option.map_some, same, means]
    exact ⟨_, rfl, rfl⟩
  exact accepts.bind fun _ found => found ▸ takes

theorem noMarkAs {meaning : Mark → Option β} {next : Option β → Parse α}
    (absent : ∀ sign, next? tokens = some (.mark sign) → meaning sign = none)
    (takes : Leads typedefs fileEnd (next none) tokens rest behind post) :
    Leads typedefs fileEnd (Parser.acceptMarkAs meaning >>= next) tokens rest behind post := by
  have refuses : Takes typedefs fileEnd (Parser.acceptMarkAs meaning) tokens tokens (· = none) := by
    refine .get ?_
    split
    · next sign ahead =>
      rw [absent sign ahead]
      exact .pure rfl
    · exact .pure rfl
  exact refuses.bind fun _ found => found ▸ takes

/-! ## Loops -/

variable {step : Parse (Option (α × Bool))} {each : α → Prop} {all : List α → Prop}

theorem collectStop (budget : Nat) (steps : Leads typedefs fileEnd step tokens rest behind (· = none))
    (ends : all []) : Leads typedefs fileEnd (collectWithin step (budget + 1)) tokens rest behind all :=
  steps.bind fun _ found => found ▸ .pure ends

theorem collectLast (budget : Nat) (steps : Leads typedefs fileEnd step tokens rest behind fun taken =>
      ∃ item, taken = some (item, false) ∧ all [item]) :
    Leads typedefs fileEnd (collectWithin step (budget + 1)) tokens rest behind all :=
  steps.bind fun _ ⟨_, found, ends⟩ => found ▸ .pure ends

theorem collectMore {budget : Nat} (steps : Leads typedefs fileEnd step tokens between names fun taken =>
      ∃ item, taken = some (item, true) ∧ each item)
    (others : ∀ item, each item → Leads names fileEnd (collectWithin step budget) between rest behind
      fun items => all (item :: items)) :
    Leads typedefs fileEnd (collectWithin step (budget + 1)) tokens rest behind all :=
  steps.bind fun _ ⟨item, found, given⟩ => found ▸ (others item given).bind fun _ holds => .pure holds

variable {go : α → Parse (Option α)} {value : α}

theorem iterateStop (budget : Nat)
    (steps : Leads typedefs fileEnd (go value) tokens rest behind (· = none)) (ends : post value) :
    Leads typedefs fileEnd (iterateWithin go (budget + 1) value) tokens rest behind post :=
  steps.bind fun _ found => found ▸ .pure ends

theorem iterateMore {budget : Nat}
    (steps : Leads typedefs fileEnd (go value) tokens between names fun taken =>
      ∃ next, taken = some next ∧ middle next)
    (others : ∀ next, middle next → Leads names fileEnd (iterateWithin go budget next) between rest
      behind post) : Leads typedefs fileEnd (iterateWithin go (budget + 1) value) tokens rest behind post :=
  steps.bind fun _ ⟨next, found, given⟩ => found ▸ others next given

end Leads

/-! ## What phrases start with -/

def opensOperand (typedefs : List String) : Lexeme → Bool
  | .intLiteral _ | .floatLiteral _ | .charLiteral _ | .stringLiteral _ | .mark .leftParen => true
  | .identifier name => !typedefs.contains name
  | _ => false

def opensExpr (typedefs : List String) : Lexeme → Bool
  | .keyword .kwSizeof => true
  | .mark sign => sign == .leftParen || (unaryOperator? sign).isSome
  | kind => opensOperand typedefs kind

def Place.opens (typedefs : List String) : Place → Lexeme → Bool
  | .operand | .suffixed | .primary => opensOperand typedefs
  | _ => opensExpr typedefs

def Place.takesNoCast : Place → Bool
  | .unary | .suffixed | .primary => true
  | _ => false

variable {typedefs : List String} {kind : Lexeme}

theorem opensExpr_of_opensOperand (opens : opensOperand typedefs kind) : opensExpr typedefs kind := by
  unfold opensOperand at opens
  split at opens <;> simp_all [opensExpr, opensOperand]

theorem Place.opensExpr {place : Place} (opens : place.opens typedefs kind) :
    Parser.opensExpr typedefs kind := by
  cases place with
  | operand | suffixed | primary => exact opensExpr_of_opensOperand opens
  | _ => exact opens

theorem opensType_of_opensExpr (opens : opensExpr typedefs kind) : opensType typedefs kind = false := by
  unfold opensExpr at opens
  split at opens
  · rfl
  · rfl
  · unfold opensOperand at opens
    split at opens <;> first | rfl | cases opens | skip
    next name _ => simpa [opensType, State.startsType, State.isTypedef] using opens

/-- What an expression starts with: behind a mark there is an expression again, unless the mark is the
parenthesis of a cast. -/
def StartsExpr (typedefs : List String) (place : Place) (lexemes : List Lexeme) : Prop :=
  ∃ first others, lexemes = first :: others ∧ place.opens typedefs first ∧
    ∀ sign, first = .mark sign → (sign = .leftParen → place.takesNoCast) →
      ∃ second, others.head? = some second ∧ opensExpr typedefs second

namespace StartsExpr

variable {place looser : Place} {lexemes : List Lexeme}

theorem loosen (starts : StartsExpr typedefs place lexemes)
    (opens : ∀ kind, place.opens typedefs kind → looser.opens typedefs kind)
    (noCast : looser.takesNoCast → place.takesNoCast) : StartsExpr typedefs looser lexemes := by
  obtain ⟨first, others, same, opened, second⟩ := starts
  exact ⟨first, others, same, opens first opened,
    fun sign isSign takes => second sign isSign fun paren => noCast (takes paren)⟩

theorem append (starts : StartsExpr typedefs place lexemes) (more : List Lexeme) :
    StartsExpr typedefs place (lexemes ++ more) := by
  obtain ⟨first, others, rfl, opened, second⟩ := starts
  refine ⟨first, others ++ more, rfl, opened, fun sign isSign takes => ?_⟩
  obtain ⟨next, found, opens⟩ := second sign isSign takes
  exact ⟨next, by rw [List.head?_append, found]; rfl, opens⟩

theorem ofWord (kind : Lexeme) (others : List Lexeme) (opens : place.opens typedefs kind)
    (notMark : ∀ sign, kind ≠ .mark sign) : StartsExpr typedefs place (kind :: others) :=
  ⟨kind, others, rfl, opens, fun sign isSign => absurd isSign (notMark sign)⟩

end StartsExpr

theorem Derives.startsExpr {phrase : Phrase} {lexemes : List Lexeme}
    (derives : Derives typedefs phrase lexemes) :
    match phrase with
    | .expr place _ => StartsExpr typedefs place lexemes
    | _ => True := by
  induction derives with
  | single _ ih | value _ ih | noChoice _ ih | operand _ ih | noCast _ ih | anyOperand _ ih =>
    exact ih.loosen (fun _ => Place.opensExpr) nofun
  | plainOperand _ ih => exact ih.loosen (fun _ => id) nofun
  | compoundOperand => exact ⟨_, _, rfl, rfl, fun sign isParen takes => by cases isParen; cases takes rfl⟩
  | noPrefix _ ih => exact ih.loosen (fun _ => Place.opensExpr) (fun _ => rfl)
  | sequence _ _ _ _ ih _ | assign _ _ _ _ ih _ | choice _ _ _ _ ih _ _ | operands _ _ _ ih _ =>
    exact (ih.append _).loosen (fun _ => Place.opensExpr) nofun
  | cast => exact ⟨_, _, rfl, rfl, fun sign isParen takes => by cases isParen; cases takes rfl⟩
  | @prefixed operand sign operator lexemes span isOperator _ ih =>
    refine ⟨_, _, rfl, by simp [Place.opens, Parser.opensExpr, isOperator], fun _ _ _ => ?_⟩
    have starts : ∃ first others, lexemes = first :: others ∧ opensExpr typedefs first := by
      obtain ⟨first, others, same, opened, -⟩ := ih
      exact ⟨first, others, same, Place.opensExpr opened⟩
    obtain ⟨first, others, rfl, opened⟩ := starts
    exact ⟨first, rfl, opened⟩
  | sizeofExpr | sizeofType => exact .ofWord _ _ rfl nofun
  | suffixed _ _ ih _ => exact ih.append _
  | intLiteral | floatLiteral | charLiteral => exact .ofWord _ _ rfl nofun
  | @stringLiteral pieces span notEmpty =>
    obtain ⟨first, others, rfl⟩ := List.exists_cons_of_ne_nil notEmpty
    exact .ofWord _ _ rfl nofun
  | identifier span absent => exact .ofWord _ _ (by simpa [Place.opens, opensOperand] using absent) nofun
  | parenthesized _ ih =>
    obtain ⟨first, others, rfl, opened, -⟩ := ih
    exact ⟨_, _, rfl, rfl, fun _ _ _ => ⟨first, rfl, opened⟩⟩
  | _ => trivial

/-! ## Initializers -/

section Initializers

variable {lexemes : List Lexeme}

theorem Derives.startsBraced {tree : Initializer} (derives : Derives typedefs (.braced tree) lexemes) :
    lexemes.head? = some (.mark .leftBrace) := by
  cases derives with
  | braced => rfl

theorem Derives.startsInitializer {tree : Initializer}
    (derives : Derives typedefs (.initializer tree) lexemes) :
    ∃ kind, lexemes.head? = some kind ∧ (kind = .mark .leftBrace ∨ opensExpr typedefs kind) := by
  cases derives with
  | plainInitializer _ value =>
    obtain ⟨first, others, rfl, opens, -⟩ := value.startsExpr
    exact ⟨first, rfl, .inr opens⟩
  | bracedInitializer list => exact ⟨_, list.startsBraced, .inl rfl⟩

theorem Derives.startsDesignators {given : List Designator}
    (derives : Derives typedefs (.designators given) lexemes) (notEmpty : given ≠ []) :
    lexemes.head? = some (.mark .dot) ∨ lexemes.head? = some (.mark .leftBracket) := by
  cases derives with
  | noDesignators => exact absurd rfl notEmpty
  | indexDesignator => exact .inr rfl
  | memberDesignator => exact .inl rfl

end Initializers

/-! ## Types -/

def OpensSpecifiers (typedefs : List String) (kind : Lexeme) : Prop :=
  (∃ word, kind = .keyword word) ∨ ∃ name ∈ typedefs, kind = .identifier name

section Types

variable {lexemes : List Lexeme}

theorem Derives.startsWords {read result : SpecifierWords}
    (derives : Derives typedefs (.words read result) lexemes) : (lexemes = [] ∧ result = read) ∨
      ∃ first others, lexemes = first :: others ∧ OpensSpecifiers typedefs first := by
  cases derives with
  | noWords => exact .inl ⟨rfl, rfl⟩
  | word => exact .inr ⟨_, _, rfl, .inl ⟨_, rfl⟩⟩
  | typedefName _ member => exact .inr ⟨_, _, rfl, .inr ⟨_, member, rfl⟩⟩
  | bodiedWord => exact .inr ⟨_, _, rfl, .inl ⟨_, rfl⟩⟩

theorem Derives.startsSpecifiers {given : Specifiers}
    (derives : Derives typedefs (.specifiers given) lexemes) :
    ∃ first others, lexemes = first :: others ∧ OpensSpecifiers typedefs first := by
  cases derives with
  | specifiers words hasType _ =>
    rcases words.startsWords with ⟨-, rfl⟩ | starts
    · cases hasType
    · exact starts

theorem Derives.startsParameters {parameters : List Parameter} {isVariadic : Bool}
    (derives : Derives typedefs (.parameters parameters isVariadic) lexemes) :
    ∃ first others, lexemes = first :: others ∧
      (first = .mark .ellipsis ∨ OpensSpecifiers typedefs first) := by
  have one {parameter : Parameter} {lexemes more : List Lexeme}
      (derives : Derives typedefs (.parameter parameter) lexemes) :
      ∃ first others, lexemes ++ more = first :: others ∧
        (first = .mark .ellipsis ∨ OpensSpecifiers typedefs first) := by
    cases derives with
    | parameter span given declared =>
      obtain ⟨first, others, rfl, opens⟩ := given.startsSpecifiers
      exact ⟨first, _, rfl, .inr opens⟩
  cases derives with
  | ellipsis => exact ⟨_, _, rfl, .inl rfl⟩
  | lastParameter parameter => rw [← List.append_nil lexemes]; exact one parameter
  | moreParameters parameter _ => exact one parameter

theorem Derives.startsLayers {layers : List Derivation}
    (derives : Derives typedefs (.layers layers) lexemes) :
    lexemes = [] ∨ lexemes.head? = some (.mark .leftBracket) ∨
      ∃ second others, lexemes = .mark .leftParen :: second :: others ∧
        (second = .mark .rightParen ∨ second = .mark .ellipsis ∨ OpensSpecifiers typedefs second) := by
  cases derives with
  | noLayers => exact .inl rfl
  | array => exact .inr (.inl rfl)
  | functionNone => exact .inr (.inr ⟨_, _, rfl, .inl rfl⟩)
  | function parameters _ =>
    obtain ⟨first, others, rfl, opens⟩ := parameters.startsParameters
    exact .inr (.inr ⟨_, _, rfl, .inr opens⟩)

end Types

end InlineMacro.Parser
