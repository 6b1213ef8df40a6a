import InlineMacro.Proofs.Parser.Success

/-!
# Phrases are read

Where tokens have the lexemes of a phrase, and what follows them does not go on with it, the parser
reads them as the tree of the phrase, apart from places. The budget that it needs is in proportion to
the number of lexemes. There is one lemma for each rule of the grammar.
-/

set_option autoImplicit false

namespace InlineMacro.Parser

/-! ## What goes on with an expression -/

def continuesOperand : Lexeme → Bool
  | .stringLiteral _ => true
  | .mark sign => [Mark.leftBracket, .leftParen, .dot, .arrow, .plusPlus, .minusMinus,
      .leftBrace].contains sign
  | _ => false

def continuesOperators (level : Nat) (kind : Lexeme) : Bool :=
  continuesOperand kind || match kind with
    | .mark sign => (binaryOperator? sign).any fun operator => level ≤ operator.1
    | _ => false

def continuesCondition (kind : Lexeme) : Bool :=
  continuesOperators 0 kind || kind == .mark .question

def continuesValue (kind : Lexeme) : Bool :=
  continuesCondition kind || match kind with
    | .mark sign => (assignmentOperator? sign).isSome
    | _ => false

namespace Place

def continues : Place → Lexeme → Bool
  | expression, kind => continuesValue kind || kind == .mark .comma
  | assignment, kind => continuesValue kind
  | conditional, kind => continuesCondition kind
  | binary level, kind => continuesOperators level kind
  | cast, kind | unary, kind | operand, kind | suffixed, kind => continuesOperand kind
  | primary, kind => match kind with
    | .stringLiteral _ => true
    | _ => false

def Stops (place : Place) (tokens : List Token) : Prop :=
  ∀ kind ∈ next? tokens, place.continues kind = false

def production : Place → Nat → Parse Expr
  | expression, budget => Grammar.expression budget
  | assignment, budget => Grammar.assignment budget
  | conditional, budget => Grammar.conditional budget
  | binary level, budget => Grammar.binary budget level
  | cast, budget | operand, budget => Grammar.cast budget
  | unary, budget => Grammar.unary budget
  | suffixed, budget => Grammar.suffixed budget
  | primary, budget => Grammar.primary budget

def height : Place → Nat
  | expression => 19
  | assignment => 18
  | conditional => 17
  | binary level => 16 - level
  | cast | operand => 5
  | unary => 4
  | suffixed => 3
  | primary => 1

end Place

def cost (lexemes : List Lexeme) : Nat := 32 * lexemes.length

@[simp] theorem cost_nil : cost [] = 0 := rfl

@[simp] theorem cost_cons (kind : Lexeme) (lexemes : List Lexeme) :
    cost (kind :: lexemes) = cost lexemes + 32 := rfl

@[simp] theorem cost_append (lexemes more : List Lexeme) :
    cost (lexemes ++ more) = cost lexemes + cost more := by
  rw [cost, List.length_append, Nat.mul_add, cost, cost]

def Accepts {α : Type} (typedefs : List String) (parser : Parse α) (lexemes : List Lexeme)
    (stops : List Token → Prop) (post : α → Prop) : Prop :=
  ∀ fileEnd tokens rest, Spelled lexemes tokens rest → stops rest →
    Takes typedefs fileEnd parser tokens rest post

def Closes (closing : Mark) (tokens : List Token) : Prop :=
  (closing = .rightParen ∨ closing = .rightBrace) ∧ next? tokens = some (.mark closing)

def Separated (closing : Mark) (rest behind : List Token) (isMore : Bool) : Prop :=
  if isMore then ∃ comma, rest = comma :: behind ∧ comma.lexeme = .mark .comma
  else rest = behind ∧ Closes closing rest

def StopsSpecifiers (tokens : List Token) : Prop :=
  ∀ kind ∈ next? tokens, (∀ word, kind ≠ .keyword word) ∧ kind ≠ .mark .leftBrace

def StopsDeclarator (tokens : List Token) : Prop :=
  ∀ kind ∈ next? tokens, (∀ word, kind ≠ .keyword word) ∧ (∀ name, kind ≠ .identifier name) ∧
    kind ≠ .mark .star ∧ kind ≠ .mark .leftParen ∧ kind ≠ .mark .leftBracket

def StopsCore (typedefs : List String) (tokens : List Token) : Prop :=
  (∀ name, next? tokens ≠ some (.identifier name)) ∧
    ∀ fileEnd, State.isAtNestedDeclarator ⟨tokens, typedefs, fileEnd⟩ = false

def SpecifierWords.unplaced (read : SpecifierWords) : SpecifierWords :=
  { read with named := read.named.map CType.unplaced }

/-- An item of a list is read, with the comma behind it. -/
def ReadsItem {α β : Type} (typedefs : List String) (closing : Mark) (slack : Nat)
    (step : Nat → Parse (Option (α × Bool))) (forget : α → β) (item : α) (lexemes : List Lexeme) : Prop :=
  ∀ budget fileEnd tokens rest behind isMore, cost lexemes + slack ≤ budget → Spelled lexemes tokens rest →
    Separated closing rest behind isMore →
    Takes typedefs fileEnd (step budget) tokens behind fun taken =>
      ∃ value, taken = some (value, isMore) ∧ forget value = forget item

def ReadsItems {α β : Type} (typedefs : List String) (closing : Mark) (slack : Nat)
    (step : Nat → Parse (Option (α × Bool))) (forget : α → β) (items : List α) (lexemes : List Lexeme) : Prop :=
  ∀ budget count, cost lexemes + slack ≤ budget → lexemes.length < count →
    Accepts typedefs (collectWithin (step budget) count) lexemes (Closes closing)
      fun values => values.map forget = items.map forget

def Phrase.IsRead (typedefs : List String) : Phrase → List Lexeme → Prop
  | expr place tree, lexemes => ∀ budget, cost lexemes + place.height ≤ budget →
    Accepts typedefs (place.production budget) lexemes place.Stops
      fun value => value.unplaced = tree.unplaced
  | parts trees, lexemes => ∀ budget count, cost lexemes ≤ budget → lexemes.length < count →
    Accepts typedefs (collectWithin (furtherPart (Grammar.assignment budget)) count) lexemes
      Place.expression.Stops fun values => values.map Expr.unplaced = trees.map Expr.unplaced
  | operators level left tree, lexemes => ∀ budget count operand, cost lexemes ≤ budget →
    lexemes.length < count → Expr.unplaced operand = left.unplaced →
    Accepts typedefs
      (iterateWithin (binaryStep level (Grammar.binary budget (level + 1))) count operand) lexemes
      (Place.binary level).Stops fun value => value.unplaced = tree.unplaced
  | suffixes inner tree, lexemes => ∀ budget count operand, cost lexemes ≤ budget →
    lexemes.length < count → Expr.unplaced operand = inner.unplaced →
    Accepts typedefs (iterateWithin (suffixStep (Grammar.expression budget)
      (Grammar.assignment budget) (Grammar.typeName budget) budget) count operand) lexemes
      Place.suffixed.Stops fun value => value.unplaced = tree.unplaced
  | argument typesAllowed tree, lexemes => ReadsItem typedefs .rightParen 20 (fun budget =>
    argumentStep typesAllowed (Grammar.assignment budget) (Grammar.typeName budget)) Expr.unplaced tree lexemes
  | arguments typesAllowed trees, lexemes => ReadsItems typedefs .rightParen 20 (fun budget =>
    argumentStep typesAllowed (Grammar.assignment budget) (Grammar.typeName budget)) Expr.unplaced trees lexemes
  | initializer tree, lexemes => ∀ budget, cost lexemes + 20 ≤ budget →
    Accepts typedefs (Grammar.initializer budget) lexemes Place.assignment.Stops
      fun value => value.unplaced = tree.unplaced
  | braced tree, lexemes => ∀ budget, cost lexemes + 1 ≤ budget →
    Accepts typedefs (Grammar.initializer budget) lexemes (fun _ => True)
      fun value => value.unplaced = tree.unplaced
  | entry tree, lexemes => ReadsItem typedefs .rightBrace 21 (fun budget =>
    initializerForm.itemStep (Grammar.initializerItem budget)) Initializer.unplaced tree lexemes
  | entries trees, lexemes => ReadsItems typedefs .rightBrace 21 (fun budget =>
    initializerForm.itemStep (Grammar.initializerItem budget)) Initializer.unplaced trees lexemes
  | designators given, lexemes => ∀ budget count, cost lexemes ≤ budget → lexemes.length < count →
    Accepts typedefs (collectWithin (designatorStep (Grammar.conditional budget)) count) lexemes
      (fun tokens => next? tokens = some (.mark .equal))
      fun values => values.map Designator.unplaced = given.map Designator.unplaced
  | typeName type, lexemes => ∀ budget, cost lexemes + 3 ≤ budget →
    Accepts typedefs (Grammar.typeName budget) lexemes
      (fun tokens => StopsSpecifiers tokens ∧ StopsDeclarator tokens)
      fun value => value.unplaced = type.unplaced
  | specifiers given, lexemes => ∀ budget, cost lexemes + 2 ≤ budget →
    Accepts typedefs (Grammar.specifiersOf budget) lexemes StopsSpecifiers fun value =>
      value.storage = given.storage ∧ value.isInline = given.isInline ∧
        value.base.unplaced = given.base.unplaced
  | words read result, lexemes => ∀ budget count words, result.hasType → cost lexemes ≤ budget →
    lexemes.length < count → SpecifierWords.unplaced words = read.unplaced →
    Accepts typedefs (iterateWithin (specifierStep (Grammar.bodied budget)) count words) lexemes
      StopsSpecifiers fun value => value.unplaced = result.unplaced
  | bodied kind type, lexemes => ∀ budget, cost lexemes + 1 ≤ budget →
    Accepts typedefs (Grammar.bodied budget kind) lexemes
      (fun tokens => next? tokens ≠ some (.mark .leftBrace))
      fun value => value.unplaced = type.unplaced
  | fields given, lexemes => ∀ budget count, cost lexemes + 2 ≤ budget → lexemes.length < count →
    Accepts typedefs (collectWithin (fieldStep (Grammar.specifiersOf budget)
      (Grammar.declarator budget) (Grammar.conditional budget) budget) count) lexemes
      (Closes .rightBrace)
      fun groups => groups.flatten.map Field.unplaced = given.map Field.unplaced
  | enumerator constant, lexemes => ReadsItem typedefs .rightBrace 0 (fun budget =>
    enumeratorStep (Grammar.conditional budget)) Enumerator.unplaced constant lexemes
  | enumerators constants, lexemes => ReadsItems typedefs .rightBrace 0 (fun budget =>
    enumeratorStep (Grammar.conditional budget)) Enumerator.unplaced constants lexemes
  | declarator declared, lexemes => ∀ budget, cost lexemes + 2 ≤ budget →
    Accepts typedefs (Grammar.declarator budget) lexemes StopsDeclarator
      fun value => value.unplaced = declared.unplaced
  | pointers given, lexemes => ∀ count, lexemes.length < count →
    Accepts typedefs (collectWithin pointerStep count) lexemes
      (fun tokens => ∀ kind ∈ next? tokens, (∀ word, kind ≠ .keyword word) ∧ kind ≠ .mark .star)
      fun values => values = given
  | core declared, lexemes => ∀ budget, cost lexemes ≤ budget →
    Accepts typedefs (declaratorCore (Grammar.declarator budget)) lexemes (StopsCore typedefs)
      fun value => value.unplaced = declared.unplaced
  | layers given, lexemes => ∀ budget count, cost lexemes ≤ budget → lexemes.length < count →
    Accepts typedefs (collectWithin (derivationStep (Grammar.assignment budget)
      (Grammar.parameters budget)) count) lexemes StopsDeclarator
      fun values => values.map Derivation.unplaced = given.map Derivation.unplaced
  | size given, lexemes => ∀ budget, cost lexemes + 20 ≤ budget →
    Accepts typedefs (arraySize (Grammar.assignment budget)) (lexemes ++ [.mark .rightBracket])
      (fun _ => True) fun value => value.map Expr.unplaced = given.map Expr.unplaced
  | parameter given, lexemes => ∀ budget fileEnd tokens rest behind isMore,
    cost lexemes + 2 ≤ budget → Spelled lexemes tokens rest →
    Separated .rightParen rest behind isMore →
    Takes typedefs fileEnd (parameterStep (Grammar.specifiersOf budget) (Grammar.declarator budget))
      tokens behind fun taken => ∃ value, taken = some (some value, isMore) ∧
        Parameter.unplaced value = given.unplaced
  | parameters given isVariadic, lexemes => ∀ budget count, cost lexemes + 2 ≤ budget →
    lexemes.length < count →
    Accepts typedefs (collectWithin (parameterStep (Grammar.specifiersOf budget)
      (Grammar.declarator budget)) count) lexemes (Closes .rightParen) fun entries =>
        (entries.filterMap id).map Parameter.unplaced = given.map Parameter.unplaced ∧
          entries.any Option.isNone = isVariadic

/-! ## What stops a parser -/

namespace Place.Stops

variable {place tighter : Place} {tokens rest : List Token} {kind : Lexeme}

theorem tighten (stops : place.Stops tokens)
    (continues : ∀ kind, tighter.continues kind → place.continues kind) : tighter.Stops tokens := by
  intro kind member
  cases goesOn : tighter.continues kind with
  | false => rfl
  | true =>
    have stopped := stops kind member
    rw [continues kind goesOn] at stopped
    cases stopped

theorem of_next (next : next? tokens = some kind) (stopped : place.continues kind = false) :
    place.Stops tokens := by
  intro other member
  rw [next] at member
  cases member
  exact stopped

theorem ne (stops : place.Stops tokens) (goesOn : place.continues kind) : next? tokens ≠ some kind := by
  intro next
  have stopped := stops kind next
  rw [goesOn] at stopped
  cases stopped

end Place.Stops

theorem continuesOperand_of_primary {kind : Lexeme} (goesOn : Place.primary.continues kind) :
    continuesOperand kind := by
  cases kind <;> first | rfl | cases goesOn

theorem continuesOperators_of_operand {kind : Lexeme} (level : Nat) (goesOn : continuesOperand kind) :
    continuesOperators level kind := by
  simp only [continuesOperators, goesOn, Bool.true_or]

theorem continuesOperators_of_higher {kind : Lexeme} {level : Nat}
    (goesOn : continuesOperators (level + 1) kind) : continuesOperators level kind := by
  simp only [continuesOperators, Bool.or_eq_true] at goesOn ⊢
  refine goesOn.imp_right fun higher => ?_
  split at higher
  · next sign =>
    cases found : binaryOperator? sign with
    | none => simp [found] at higher
    | some operator =>
      simp only [found, Option.any_some, decide_eq_true_eq] at higher ⊢
      exact Nat.le_of_succ_le higher
  · cases higher

theorem continuesCondition_of_operators {kind : Lexeme} (goesOn : continuesOperators 0 kind) :
    continuesCondition kind := by
  rw [continuesCondition, goesOn, Bool.true_or]

theorem continuesValue_of_condition {kind : Lexeme} (goesOn : continuesCondition kind) :
    continuesValue kind := by
  simp only [continuesValue, goesOn, Bool.true_or]

theorem continues_expression_of_value {kind : Lexeme} (goesOn : continuesValue kind) :
    Place.expression.continues kind := by
  rw [Place.continues, goesOn, Bool.true_or]

theorem Spelled.next?_of_head {kind : Lexeme} {lexemes : List Lexeme} {tokens rest : List Token}
    (spelled : Spelled lexemes tokens rest) (starts : lexemes.head? = some kind) :
    next? tokens = some kind := by
  rw [spelled.next?_eq, starts]
  rfl

theorem length_lt_of_cost {lexemes : List Lexeme} {count : Nat} (enough : cost lexemes + 1 ≤ count) :
    lexemes.length < count := by
  unfold cost at enough
  omega

theorem startsType_eq (tokens : List Token) (typedefs : List String) (fileEnd : Location) (kind : Lexeme) :
    State.startsType ⟨tokens, typedefs, fileEnd⟩ (some kind) = opensType typedefs kind := rfl

theorem StartsExpr.notAtType {typedefs : List String} {place : Place} {lexemes : List Lexeme}
    {tokens rest : List Token} (starts : StartsExpr typedefs place lexemes)
    (noCast : place.takesNoCast) (spelled : Spelled lexemes tokens rest) (fileEnd : Location) :
    State.isAtParenthesizedType ⟨tokens, typedefs, fileEnd⟩ = false := by
  obtain ⟨first, others, rfl, -, second⟩ := starts
  obtain ⟨token, behind, rfl, isFirst, spelled⟩ := spelled
  by_cases paren : first = .mark .leftParen
  · obtain ⟨next, found, opens⟩ := second _ paren fun _ => noCast
    have ahead : State.secondLexeme? ⟨token :: behind, typedefs, fileEnd⟩ = some next :=
      spelled.next?_of_head found
    rw [State.isAtParenthesizedType, ahead, startsType_eq, opensType_of_opensExpr opens, Bool.and_false]
  · have notAt : State.isAtMark ⟨token :: behind, typedefs, fileEnd⟩ .leftParen = false := by
      simpa [State.isAtMark, State.lexeme?, isFirst] using paren
    rw [State.isAtParenthesizedType, notAt, Bool.false_and]

theorem StartsExpr.next?_ne {typedefs : List String} {place : Place} {lexemes : List Lexeme}
    {tokens rest : List Token} {kind : Lexeme} (starts : StartsExpr typedefs place lexemes)
    (spelled : Spelled lexemes tokens rest) (other : place.opens typedefs kind = false) :
    next? tokens ≠ some kind := by
  obtain ⟨first, others, rfl, opens, -⟩ := starts
  rw [spelled.next?_of_head rfl]
  rintro same
  cases same
  rw [opens] at other
  cases other

theorem isAtParenthesizedType_of_opens {typedefs : List String} {kind : Lexeme} {token : Token}
    {tokens : List Token} (paren : token.lexeme = .mark .leftParen) (next : next? tokens = some kind)
    (opens : opensType typedefs kind) (fileEnd : Location) :
    State.isAtParenthesizedType ⟨token :: tokens, typedefs, fileEnd⟩ = true := by
  have at' : State.isAtMark ⟨token :: tokens, typedefs, fileEnd⟩ .leftParen := by
    simp [State.isAtMark, State.lexeme?, paren]
  have ahead : State.secondLexeme? ⟨token :: tokens, typedefs, fileEnd⟩ = some kind := next
  rw [State.isAtParenthesizedType, at', ahead, startsType_eq, opens, Bool.and_self]

theorem isAtMark_eq_false {sign : Mark} {tokens : List Token} (absent : next? tokens ≠ some (.mark sign))
    (typedefs : List String) (fileEnd : Location) : State.isAtMark ⟨tokens, typedefs, fileEnd⟩ sign = false :=
  beq_eq_false_iff_ne.mpr absent

theorem stops_of_paren {token : Token} {tokens : List Token} (paren : token.lexeme = .mark .rightParen) :
    StopsSpecifiers (token :: tokens) ∧ StopsDeclarator (token :: tokens) := by
  constructor <;> intro kind member <;> cases member <;> rw [paren] <;> simp

theorem Leads.acceptComma {α : Type} {typedefs : List String} {fileEnd : Location} {closing : Mark}
    {rest behind last : List Token} {isMore : Bool} {next : Bool → Parse α} {post : α → Prop}
    (separated : Separated closing rest behind isMore)
    (takes : Takes typedefs fileEnd (next isMore) behind last post) :
    Takes typedefs fileEnd (Parser.acceptMark .comma >>= next) rest last post := by
  cases isMore with
  | true =>
    obtain ⟨comma, rfl, isComma⟩ := separated
    exact .acceptMark isComma takes
  | false =>
    obtain ⟨rfl, isClosing, closes⟩ := separated
    refine .noMark ?_ takes
    rcases isClosing with rfl | rfl <;> simp [closes]

namespace Separated

variable {closing : Mark} {rest behind : List Token} {isMore : Bool}

theorem next (separated : Separated closing rest behind isMore) :
    next? rest = some (.mark .comma) ∨ next? rest = some (.mark .rightParen) ∨
      next? rest = some (.mark .rightBrace) := by
  cases isMore with
  | true =>
    obtain ⟨comma, rfl, isComma⟩ := separated
    exact .inl (congrArg some isComma)
  | false =>
    obtain ⟨-, rfl | rfl, closes⟩ := separated
    · exact .inr (.inl closes)
    · exact .inr (.inr closes)

theorem stops (separated : Separated closing rest behind isMore) : Place.assignment.Stops rest := by
  rcases separated.next with same | same | same <;> exact .of_next same rfl

theorem stopsType (separated : Separated closing rest behind isMore) :
    StopsSpecifiers rest ∧ StopsDeclarator rest := by
  constructor <;> intro kind member <;> rcases separated.next with same | same | same <;>
    rw [same] at member <;> cases member <;> simp

end Separated

theorem takesTypes_eq {first second : Expr} (same : first.unplaced = second.unplaced) :
    takesTypes first = takesTypes second := by
  rw [takesTypes, ← Expr.identifier?_unplaced, same, Expr.identifier?_unplaced, takesTypes]

theorem exists_smaller {least budget : Nat} (enough : least + 1 ≤ budget) :
    ∃ smaller, budget = smaller + 1 ∧ least ≤ smaller :=
  ⟨budget - 1, by omega, by omega⟩

namespace ReadsItem

variable {α β : Type} {typedefs : List String} {closing : Mark} {slack : Nat} {step : Nat → Parse (Option (α × Bool))}
  {forget : α → β} {item : α} {items : List α} {lexemes others : List Lexeme}

theorem nil (stops : ∀ budget fileEnd rest, Closes closing rest →
      Takes typedefs fileEnd (step budget) rest rest (· = none)) :
    ReadsItems typedefs closing slack step forget [] [] := by
  intro budget count _ some fileEnd tokens rest spelled closes
  obtain ⟨last, rfl, -⟩ := exists_smaller (Nat.succ_le_of_lt some)
  obtain rfl : tokens = rest := spelled
  exact .collectStop last (stops budget fileEnd _ closes) rfl

theorem last (one : ReadsItem typedefs closing slack step forget item lexemes) :
    ReadsItems typedefs closing slack step forget [item] lexemes := by
  intro budget count least enough fileEnd tokens rest spelled closes
  obtain ⟨last, rfl, -⟩ := exists_smaller (Nat.succ_le_of_lt enough)
  have separated : Separated closing rest rest false := ⟨rfl, closes⟩
  refine .collectLast last ((one budget fileEnd _ _ _ _ least spelled separated).mono ?_)
  exact fun taken ⟨value, same, sameValue⟩ => ⟨value, same, by simp [sameValue]⟩

theorem more (one : ReadsItem typedefs closing slack step forget item lexemes)
    (further : ReadsItems typedefs closing slack step forget items others) :
    ReadsItems typedefs closing slack step forget (item :: items) (lexemes ++ .mark .comma :: others) := by
  intro budget count least enough fileEnd tokens rest spelled closes
  simp only [cost_append, cost_cons] at least
  simp only [List.length_cons, List.length_append] at enough
  obtain ⟨last, rfl, -⟩ := exists_smaller (Nat.succ_le_of_lt enough)
  obtain ⟨_, ahead, comma, between, rfl, isComma, behind⟩ := spelled.append
  have separated : Separated closing (comma :: between) between true := ⟨comma, rfl, isComma⟩
  refine .collectMore (one budget fileEnd _ _ _ _ (by omega) ahead separated) fun item sameItem => ?_
  exact (further budget last (by omega) (by omega) _ _ _ behind closes).mono fun items same => by
    simp [sameItem, same]

end ReadsItem

namespace Phrase.IsRead

variable {typedefs : List String} {lexemes more others : List Lexeme}

/-! ## Expressions -/

section Expressions

variable {tree first left right inside : Expr}

theorem single (value : (expr .assignment tree).IsRead typedefs lexemes) :
    (expr .expression tree).IsRead typedefs lexemes := by
  intro budget enough fileEnd tokens rest spelled stops
  obtain ⟨inner, rfl, least⟩ := exists_smaller enough
  obtain ⟨last, rfl, -⟩ := exists_smaller least
  have noComma : next? rest ≠ some (.mark .comma) := stops.ne rfl
  refine .bind (value _ least _ _ _ spelled (stops.tighten fun _ => continues_expression_of_value))
    fun found same => ?_
  refine .bind (Leads.collectStop last (.noMark noComma (.pure rfl)) rfl) fun _ isNone => ?_
  subst isNone
  exact .pure same

variable {trees : List Expr}

theorem sequence (span : Span) (value : (expr .assignment first).IsRead typedefs lexemes)
    (further : (parts trees).IsRead typedefs more) (notEmpty : trees ≠ [])
    (comma : more.head? = some (.mark .comma)) :
    (expr .expression (.comma span (first :: trees))).IsRead typedefs (lexemes ++ more) := by
  intro budget enough fileEnd tokens rest spelled stops
  obtain ⟨inner, rfl, least⟩ := exists_smaller enough
  simp only [cost_append] at least
  obtain ⟨between, ahead, behind⟩ := spelled.append
  refine .bind (value inner (by simp only [Place.height]; omega) _ _ _ ahead
    (.of_next (behind.next?_of_head comma) rfl)) fun found same => ?_
  refine .bind (further inner inner (by omega) (length_lt_of_cost (by omega)) _ _ _ behind stops)
    fun others sameOthers => ?_
  have some : ¬others.isEmpty := by
    intro none
    rw [List.isEmpty_iff.mp none] at sameOthers
    exact notEmpty (List.map_eq_nil_iff.mp sameOthers.symm)
  exact .iteNot some (.spanFrom fun span => .pure (by simp [Expr.unplaced, same, sameOthers]))

theorem noParts : (parts []).IsRead typedefs [] := by
  intro budget count _ some fileEnd tokens rest spelled stops
  obtain ⟨last, rfl, -⟩ := exists_smaller (Nat.succ_le_of_lt some)
  obtain rfl : tokens = rest := spelled
  have noComma : next? tokens ≠ Option.some (.mark .comma) := stops.ne rfl
  exact Leads.collectStop last (.noMark noComma (.pure rfl)) rfl

theorem part (value : (expr .assignment tree).IsRead typedefs lexemes)
    (further : (parts trees).IsRead typedefs more) (comma : more = [] ∨ more.head? = some (.mark .comma)) :
    (parts (tree :: trees)).IsRead typedefs (.mark .comma :: (lexemes ++ more)) := by
  intro budget count least enough fileEnd tokens rest ⟨token, _, same, isComma, spelled⟩ stops
  subst same
  obtain ⟨between, ahead, behind⟩ := spelled.append
  simp only [cost_append, cost_cons] at least
  simp only [List.length_cons, List.length_append] at enough
  obtain ⟨last, rfl, -⟩ := exists_smaller (Nat.succ_le_of_lt enough)
  have valueStops : Place.assignment.Stops between := by
    rcases comma with rfl | comma
    · obtain rfl : between = rest := behind
      exact stops.tighten fun _ => continues_expression_of_value
    · exact .of_next (behind.next?_of_head comma) rfl
  have steps : Takes typedefs fileEnd (furtherPart (Grammar.assignment budget)) (token :: _) between
      fun taken => ∃ item, taken = some (item, true) ∧ Expr.unplaced item = tree.unplaced :=
    .acceptMark isComma (.bind (value budget (by simp only [Place.height]; omega) _ _ _ ahead valueStops)
      fun found same => .pure ⟨found, rfl, same⟩)
  refine .collectMore steps fun item sameItem => ?_
  refine (further budget last (by omega) (by omega) _ _ _ behind stops).mono fun items same => ?_
  rw [List.map_cons, List.map_cons, same, sameItem]

theorem value (inner : (expr .conditional tree).IsRead typedefs lexemes) :
    (expr .assignment tree).IsRead typedefs lexemes := by
  intro budget enough fileEnd tokens rest spelled stops
  obtain ⟨smaller, rfl, least⟩ := exists_smaller enough
  have noOperator : ∀ sign, next? rest = some (.mark sign) → assignmentOperator? sign = none := by
    intro sign next
    have stopped := stops _ next
    simp only [Place.continues, continuesValue, Bool.or_eq_false_iff] at stopped
    simpa using stopped.2
  exact .bind (inner _ least _ _ _ spelled (stops.tighten fun _ => continuesValue_of_condition))
    fun found same => .noMarkAs noOperator (.pure same)

variable {sign : Mark}

theorem assign {operator : BinaryOperator} (span : Span)
    (target : (expr .conditional left).IsRead typedefs lexemes)
    (isOperator : assignmentOperator? sign = some operator)
    (value : (expr .assignment right).IsRead typedefs more) :
    (expr .assignment (.binary span operator left right)).IsRead typedefs
      (lexemes ++ .mark sign :: more) := by
  intro budget enough fileEnd tokens rest spelled stops
  obtain ⟨inner, rfl, least⟩ := exists_smaller enough
  simp only [cost_append, cost_cons] at least
  obtain ⟨between, ahead, token, behind, rfl, isSign, spelled⟩ := spelled.append
  have stopped : Place.conditional.continues (.mark sign) = false := by
    cases sign <;> first | rfl | cases isOperator
  refine .bind (target inner (by simp only [Place.height]; omega) _ _ _ ahead
    (.of_next (congrArg some isSign) stopped)) fun found same => ?_
  refine .acceptMarkAs isSign isOperator (.bind
    (value inner (by simp only [Place.height]; omega) _ _ _ spelled stops) fun other sameOther => ?_)
  exact .pure (by simp [Expr.unplaced, same, sameOther])

theorem noChoice (inner : (expr (.binary 0) tree).IsRead typedefs lexemes) :
    (expr .conditional tree).IsRead typedefs lexemes := by
  intro budget enough fileEnd tokens rest spelled stops
  obtain ⟨smaller, rfl, least⟩ := exists_smaller enough
  have noQuestion : next? rest ≠ some (.mark .question) := stops.ne rfl
  exact .bind (inner _ least _ _ _ spelled (stops.tighten fun _ => continuesCondition_of_operators))
    fun found same => .noMark noQuestion (.pure same)

theorem choice {condition thenValue elseValue : Expr} (span : Span)
    (chooses : (expr (.binary 0) condition).IsRead typedefs lexemes)
    (first : (expr .expression thenValue).IsRead typedefs more)
    (second : (expr .conditional elseValue).IsRead typedefs others) :
    (expr .conditional (.conditional span condition thenValue elseValue)).IsRead typedefs
      (lexemes ++ .mark .question :: (more ++ .mark .colon :: others)) := by
  intro budget enough fileEnd tokens rest spelled stops
  obtain ⟨inner, rfl, least⟩ := exists_smaller enough
  simp only [cost_append, cost_cons] at least
  obtain ⟨_, ahead, question, _, rfl, isQuestion, spelled⟩ := spelled.append
  obtain ⟨_, between, colon, _, rfl, isColon, behind⟩ := spelled.append
  refine .bind (chooses inner (by simp only [Place.height]; omega) _ _ _ ahead
    (.of_next (congrArg some isQuestion) rfl)) fun found same => .acceptMark isQuestion ?_
  refine .bind (first inner (by simp only [Place.height]; omega) _ _ _ between
    (.of_next (congrArg some isColon) rfl)) fun one sameOne => .expect isColon ?_
  refine .bind (second inner (by simp only [Place.height]; omega) _ _ _ behind stops)
    fun other sameOther => .pure ?_
  simp [Expr.unplaced, same, sameOne, sameOther]

variable {level : Nat}

theorem operandStops {between rest : List Token} (behind : Spelled more between rest)
    (signs : more = [] ∨ ∃ sign operator, more.head? = some (.mark sign) ∧
      binaryOperator? sign = some (level, operator)) (stops : (Place.binary level).Stops rest) :
    (Place.binary (level + 1)).Stops between := by
  rcases signs with rfl | ⟨sign, operator, starts, isOperator⟩
  · obtain rfl : between = rest := behind
    exact stops.tighten fun _ => continuesOperators_of_higher
  · refine .of_next (behind.next?_of_head starts) ?_
    have notOperand : continuesOperand (.mark sign) = false := by
      cases sign <;> first | rfl | cases isOperator
    simp [Place.continues, continuesOperators, notOperand, isOperator]

theorem operands (isLevel : level < binaryLevels)
    (operand : (expr (.binary (level + 1)) first).IsRead typedefs lexemes)
    (further : (operators level first tree).IsRead typedefs more)
    (sign : more = [] ∨ ∃ sign operator, more.head? = some (.mark sign) ∧
      binaryOperator? sign = some (level, operator)) :
    (expr (.binary level) tree).IsRead typedefs (lexemes ++ more) := by
  intro budget enough fileEnd tokens rest spelled stops
  have isBelow : level < 10 := isLevel
  simp only [cost_append, Place.height] at enough
  obtain ⟨inner, rfl⟩ : ∃ inner, budget = inner + 1 := ⟨budget - 1, by omega⟩
  obtain ⟨between, ahead, behind⟩ := spelled.append
  have reads : Takes typedefs fileEnd (binaryForm level (Grammar.binary inner (level + 1)) inner) tokens
      rest fun value => value.unplaced = tree.unplaced :=
    .bind (operand inner (by simp only [Place.height]; omega) _ _ _ ahead (operandStops behind sign stops))
      fun found same => further inner inner found (by omega) (length_lt_of_cost (by omega)) same _ _ _
        behind stops
  show Takes typedefs fileEnd (Grammar.binary (inner + 1) level) tokens rest _
  rw [Grammar.binary, if_neg (Nat.ne_of_lt isLevel)]
  exact reads

theorem noOperators : (operators level tree tree).IsRead typedefs [] := by
  intro budget count operand _ some same fileEnd tokens rest spelled stops
  obtain ⟨last, rfl, -⟩ := exists_smaller (Nat.succ_le_of_lt some)
  obtain rfl : tokens = rest := spelled
  have noOperator : binaryOperatorAt level ⟨tokens, typedefs, fileEnd⟩ = none := by
    unfold binaryOperatorAt
    split
    · next sign next =>
      have stopped := stops _ next
      simp only [Place.continues, continuesOperators, Bool.or_eq_false_iff] at stopped
      cases found : binaryOperator? sign with
      | none => rfl
      | some operator =>
        have lower : ¬level ≤ operator.1 := by simpa [found] using stopped.2
        exact if_neg fun same => lower (Nat.le_of_eq same.symm)
    · rfl
  refine Leads.iterateStop last (.get ?_) same
  rw [noOperator]
  exact .pure rfl

theorem operator {operator : BinaryOperator} (span : Span)
    (isOperator : binaryOperator? sign = some (level, operator))
    (operand : (expr (.binary (level + 1)) right).IsRead typedefs lexemes)
    (further : (operators level (.binary span operator left right) tree).IsRead typedefs more)
    (signs : more = [] ∨ ∃ sign operator, more.head? = some (.mark sign) ∧
      binaryOperator? sign = some (level, operator)) :
    (operators level left tree).IsRead typedefs (.mark sign :: (lexemes ++ more)) := by
  rintro budget count given least enough same fileEnd _ rest ⟨token, tokens, rfl, isSign, spelled⟩ stops
  obtain ⟨between, ahead, behind⟩ := spelled.append
  simp only [cost_append, cost_cons] at least
  simp only [List.length_cons, List.length_append] at enough
  obtain ⟨last, rfl, -⟩ := exists_smaller (Nat.succ_le_of_lt enough)
  have found : binaryOperatorAt level ⟨token :: tokens, typedefs, fileEnd⟩ = some operator := by
    simp [binaryOperatorAt, State.lexeme?, isSign, isOperator]
  have steps : Takes typedefs fileEnd (binaryStep level (Grammar.binary budget (level + 1)) given)
      (token :: tokens) between fun taken => ∃ next, taken = some next ∧
        Expr.unplaced next = (Expr.binary span operator left right).unplaced := by
    refine .get ?_
    rw [found]
    refine .skip (.bind (operand budget (by simp only [Place.height]; omega) _ _ _ ahead
      (operandStops behind signs stops)) fun other sameOther => .pure ⟨_, rfl, ?_⟩)
    simp [Expr.unplaced, same, sameOther]
  exact .iterateMore steps fun next sameNext =>
    further budget last next (by omega) (by omega) sameNext _ _ _ behind stops

theorem operand (inner : (expr .cast tree).IsRead typedefs lexemes) :
    (expr (.binary binaryLevels) tree).IsRead typedefs lexemes := by
  intro budget enough fileEnd tokens rest spelled stops
  obtain ⟨smaller, rfl, least⟩ := exists_smaller enough
  show Takes typedefs fileEnd (Grammar.binary (smaller + 1) binaryLevels) tokens rest _
  rw [Grammar.binary, if_pos rfl]
  exact inner _ least _ _ _ spelled (stops.tighten fun _ => continuesOperators_of_operand _)

theorem noCast (inner : (expr .unary tree).IsRead typedefs lexemes)
    (starts : StartsExpr typedefs .unary lexemes) : (expr .cast tree).IsRead typedefs lexemes := by
  intro budget enough fileEnd tokens rest spelled stops
  obtain ⟨smaller, rfl, least⟩ := exists_smaller enough
  refine .get ?_
  rw [starts.notAtType rfl spelled]
  exact inner _ least _ _ _ spelled stops

variable {type : CType}

theorem cast (span : Span) (names : (typeName type).IsRead typedefs lexemes)
    (opens : ∃ kind, lexemes.head? = some kind ∧ opensType typedefs kind)
    (operand : (expr .cast inside).IsRead typedefs more) (starts : StartsExpr typedefs .cast more) :
    (expr .cast (.cast span type inside)).IsRead typedefs
      (.mark .leftParen :: (lexemes ++ .mark .rightParen :: more)) := by
  rintro budget enough fileEnd _ rest ⟨token, tokens, rfl, isParen, spelled⟩ stops
  obtain ⟨inner, rfl, least⟩ := exists_smaller enough
  simp only [cost_append, cost_cons] at least
  obtain ⟨_, ahead, closing, _, rfl, isClosing, behind⟩ := spelled.append
  obtain ⟨kind, head, opens⟩ := opens
  refine .get ?_
  rw [isAtParenthesizedType_of_opens isParen (ahead.next?_of_head head) opens]
  refine .skip (.bind (names inner (by omega) _ _ _ ahead (stops_of_paren isClosing)) fun target same =>
    .expect isClosing (.get ?_))
  rw [isAtMark_eq_false (starts.next?_ne behind rfl)]
  exact .bind (operand inner (by simp only [Place.height]; omega) _ _ _ behind stops)
    fun found sameFound => .pure (by simp [Expr.unplaced, same, sameFound])

theorem noPrefix (inner : (expr .suffixed tree).IsRead typedefs lexemes)
    (starts : StartsExpr typedefs .suffixed lexemes) : (expr .unary tree).IsRead typedefs lexemes := by
  intro budget enough fileEnd tokens rest spelled stops
  obtain ⟨smaller, rfl, least⟩ := exists_smaller enough
  have noOperator : ∀ sign, next? tokens = some (.mark sign) → unaryOperator? sign = none := by
    intro sign next
    cases sign <;> first | rfl | exact absurd next (starts.next?_ne spelled rfl)
  exact .location fun start => .noKeyword (starts.next?_ne spelled rfl)
    (.noMarkAs noOperator (inner _ least _ _ _ spelled stops))

theorem anyOperand (inner : (expr .operand tree).IsRead typedefs lexemes) :
    (expr .cast tree).IsRead typedefs lexemes := inner

theorem plainOperand (inner : (expr .suffixed tree).IsRead typedefs lexemes)
    (starts : StartsExpr typedefs .suffixed lexemes) : (expr .operand tree).IsRead typedefs lexemes :=
  noCast (inner.noPrefix starts) (starts.loosen (fun _ => Place.opensExpr) fun _ => rfl)

theorem compoundOperand {value : Initializer} (span : Span) (names : (typeName type).IsRead typedefs lexemes)
    (opens : ∃ kind, lexemes.head? = some kind ∧ opensType typedefs kind)
    (list : (braced value).IsRead typedefs more) (brace : more.head? = some (.mark .leftBrace))
    (further : (suffixes (.compoundLiteral span type value) tree).IsRead typedefs others) :
    (expr .operand tree).IsRead typedefs
      (.mark .leftParen :: (lexemes ++ .mark .rightParen :: (more ++ others))) := by
  rintro budget enough fileEnd _ rest ⟨token, tokens, rfl, isParen, spelled⟩ stops
  simp only [cost_append, cost_cons, Place.height] at enough
  obtain ⟨inner, rfl⟩ : ∃ inner, budget = inner + 2 := ⟨budget - 2, by omega⟩
  obtain ⟨_, ahead, closing, between, rfl, isClosing, spelled⟩ := spelled.append
  obtain ⟨_, middle, behind⟩ := spelled.append
  obtain ⟨kind, head, opens⟩ := opens
  have isBrace : State.isAtMark ⟨between, typedefs, fileEnd⟩ .leftBrace = true :=
    beq_iff_eq.mpr (middle.next?_of_head brace)
  refine .get ?_
  rw [isAtParenthesizedType_of_opens isParen (ahead.next?_of_head head) opens]
  refine .skip (.bind (names (inner + 1) (by omega) _ _ _ ahead (stops_of_paren isClosing))
    fun target same => .expect isClosing (.get (.ite isBrace ?_)))
  refine .bind (list (inner + 1) (by omega) _ _ _ middle trivial) fun found sameFound =>
    .spanFrom fun place => ?_
  exact further inner inner _ (by omega) (length_lt_of_cost (by omega))
    (by simp [Expr.unplaced, same, sameFound]) _ _ _ behind stops

theorem prefixed {operator : UnaryOperator} (span : Span) (isOperator : unaryOperator? sign = some operator)
    (operand : (expr (if takesUnaryOperand operator then .unary else .cast) inside).IsRead typedefs
      lexemes) : (expr .unary (.unary span operator inside)).IsRead typedefs (.mark sign :: lexemes) := by
  rintro budget enough fileEnd _ rest ⟨token, tokens, rfl, isSign, spelled⟩ stops
  obtain ⟨inner, rfl, least⟩ := exists_smaller enough
  simp only [cost_cons] at least
  have noSizeof : next? (token :: tokens) ≠ some (.keyword .kwSizeof) := by simp [next?, isSign]
  refine .location fun start => .noKeyword noSizeof (.acceptMarkAs isSign isOperator ?_)
  cases takes : takesUnaryOperand operator with
  | true =>
    simp only [takes, if_true] at operand ⊢
    exact .bind (operand inner (by simp only [Place.height]; omega) _ _ _ spelled stops)
      fun found same => .pure (by simp [Expr.unplaced, same])
  | false =>
    simp only [takes, Bool.false_eq_true, if_false] at operand ⊢
    exact .bind (operand inner (by simp only [Place.height]; omega) _ _ _ spelled stops)
      fun found same => .pure (by simp [Expr.unplaced, same])

theorem sizeofExpr (span : Span) (operand : (expr .unary inside).IsRead typedefs lexemes)
    (starts : StartsExpr typedefs .unary lexemes) :
    (expr .unary (.sizeofExpr span inside)).IsRead typedefs (.keyword .kwSizeof :: lexemes) := by
  rintro budget enough fileEnd _ rest ⟨token, tokens, rfl, isWord, spelled⟩ stops
  obtain ⟨inner, rfl, least⟩ := exists_smaller enough
  simp only [cost_cons] at least
  refine .location fun start => .acceptKeyword isWord (.get ?_)
  rw [starts.notAtType rfl spelled]
  exact .bind (operand inner (by simp only [Place.height]; omega) _ _ _ spelled stops)
    fun found same => .pure (by simp [Expr.unplaced, same])

theorem sizeofType (span : Span) (names : (typeName type).IsRead typedefs lexemes)
    (opens : ∃ kind, lexemes.head? = some kind ∧ opensType typedefs kind) :
    (expr .unary (.sizeofType span type)).IsRead typedefs
      (.keyword .kwSizeof :: .mark .leftParen :: (lexemes ++ [.mark .rightParen])) := by
  rintro budget enough fileEnd _ rest ⟨token, _, rfl, isWord, paren, tokens, rfl, isParen, spelled⟩ stops
  obtain ⟨inner, rfl, least⟩ := exists_smaller enough
  simp only [cost_append, cost_cons] at least
  obtain ⟨_, ahead, closing, _, rfl, isClosing, rfl⟩ := spelled.append
  obtain ⟨kind, head, opens⟩ := opens
  refine .location fun start => .acceptKeyword isWord (.get ?_)
  rw [isAtParenthesizedType_of_opens isParen (ahead.next?_of_head head) opens]
  refine .skip (.bind (names inner (by omega) _ _ _ ahead (stops_of_paren isClosing)) fun found same =>
    .expect isClosing (.get ?_))
  rw [isAtMark_eq_false (stops.ne rfl)]
  exact .spanFrom fun span => .pure (by simp [Expr.unplaced, same])

theorem suffixed (operand : (expr .primary first).IsRead typedefs lexemes)
    (further : (suffixes first tree).IsRead typedefs more)
    (sign : more = [] ∨ ∃ sign, more.head? = some (.mark sign)) :
    (expr .suffixed tree).IsRead typedefs (lexemes ++ more) := by
  intro budget enough fileEnd tokens rest spelled stops
  simp only [cost_append, Place.height] at enough
  obtain ⟨inner, rfl⟩ : ∃ inner, budget = inner + 2 := ⟨budget - 2, by omega⟩
  obtain ⟨between, ahead, behind⟩ := spelled.append
  have operandStops : Place.primary.Stops between := by
    rcases sign with rfl | ⟨sign, starts⟩
    · obtain rfl : between = rest := behind
      exact stops.tighten fun _ => continuesOperand_of_primary
    · exact .of_next (behind.next?_of_head starts) rfl
  exact .bind (operand (inner + 1) (by simp only [Place.height]; omega) _ _ _ ahead operandStops)
    fun found same => further inner inner found (by omega) (length_lt_of_cost (by omega)) same _ _ _
      behind stops

theorem noSuffixes : (suffixes tree tree).IsRead typedefs [] := by
  intro budget count operand _ some same fileEnd tokens rest spelled stops
  obtain ⟨last, rfl, -⟩ := exists_smaller (Nat.succ_le_of_lt some)
  obtain rfl : tokens = rest := spelled
  refine Leads.iterateStop last (.get ?_) same
  split
  · next next => exact absurd next (stops.ne rfl)
  · next next => exact absurd next (stops.ne rfl)
  · next next => exact absurd next (stops.ne rfl)
  · next next => exact absurd next (stops.ne rfl)
  · next next => exact absurd next (stops.ne rfl)
  · next next => exact absurd next (stops.ne rfl)
  · exact .pure rfl

theorem suffix {next : Expr} (sequel : List Lexeme) (further : (suffixes next tree).IsRead typedefs more)
    (steps : ∀ budget operand fileEnd token tokens between, cost sequel + 32 ≤ budget →
      Expr.unplaced operand = inside.unplaced → token.lexeme = .mark sign → Spelled sequel tokens between →
      Takes typedefs fileEnd (suffixStep (Grammar.expression budget) (Grammar.assignment budget)
        (Grammar.typeName budget) budget operand) (token :: tokens) between fun taken =>
          ∃ value, taken = some value ∧ Expr.unplaced value = next.unplaced) :
    (suffixes inside tree).IsRead typedefs (.mark sign :: (sequel ++ more)) := by
  rintro budget count operand least enough same fileEnd _ rest ⟨token, tokens, rfl, isSign, spelled⟩ stops
  obtain ⟨between, ahead, behind⟩ := spelled.append
  simp only [cost_append, cost_cons] at least
  simp only [List.length_cons, List.length_append] at enough
  obtain ⟨last, rfl, -⟩ := exists_smaller (Nat.succ_le_of_lt enough)
  exact .iterateMore (steps budget operand fileEnd _ _ _ (by omega) same isSign ahead) fun next sameNext =>
    further budget last next (by omega) (by omega) sameNext _ _ _ behind stops

theorem index {position : Expr} (span : Span) (inner : (expr .expression position).IsRead typedefs lexemes)
    (further : (suffixes (.binary span .index inside position) tree).IsRead typedefs more) :
    (suffixes inside tree).IsRead typedefs
      (.mark .leftBracket :: (lexemes ++ .mark .rightBracket :: more)) := by
  rw [List.append_cons]
  refine suffix _ further fun budget operand fileEnd token tokens between enough same isSign spelled => .get ?_
  obtain ⟨_, ahead, closing, _, rfl, isClosing, rfl⟩ := spelled.append
  simp only [cost_append] at enough
  simp only [State.lexeme?, List.head?_cons, Option.map_some, isSign]
  refine .skip (.bind (inner budget (by simp only [Place.height]; omega) _ _ _ ahead
    (.of_next (congrArg some isClosing) rfl)) fun found sameFound => .expect isClosing ?_)
  exact .spanFrom fun span => .pure ⟨_, rfl, by simp [Expr.unplaced, same, sameFound]⟩

theorem callNone (span : Span) (further : (suffixes (.call span inside []) tree).IsRead typedefs more) :
    (suffixes inside tree).IsRead typedefs (.mark .leftParen :: .mark .rightParen :: more) := by
  refine suffix [.mark .rightParen] further
    fun budget operand fileEnd token tokens between _ same isSign spelled => .get ?_
  obtain ⟨closing, left, rfl, isClosing, rfl⟩ := spelled
  simp only [State.lexeme?, List.head?_cons, Option.map_some, isSign]
  have none : Takes typedefs fileEnd (argumentsForm (takesTypes operand) (Grammar.assignment budget)
      (Grammar.typeName budget) budget) (closing :: left) left (· = []) :=
    .acceptMark isClosing (.pure rfl)
  refine .skip (none.bind fun arguments isNone => .spanFrom fun span => .pure ⟨_, rfl, ?_⟩)
  simp [Expr.unplaced, same, isNone]

theorem call (span : Span) (inner : (arguments (takesTypes inside) trees).IsRead typedefs lexemes)
    (opens : ∃ kind, lexemes.head? = some kind ∧ kind ≠ .mark .rightParen)
    (further : (suffixes (.call span inside trees) tree).IsRead typedefs more) :
    (suffixes inside tree).IsRead typedefs (.mark .leftParen :: (lexemes ++ .mark .rightParen :: more)) := by
  rw [List.append_cons]
  refine suffix _ further fun budget operand fileEnd token tokens between enough same isSign spelled => .get ?_
  obtain ⟨_, ahead, closing, left, rfl, isClosing, rfl⟩ := spelled.append
  simp only [cost_append] at enough
  obtain ⟨kind, head, notClosing⟩ := opens
  have some : next? tokens ≠ some (.mark .rightParen) := by
    rw [ahead.next?_of_head head]
    exact fun same => notClosing (Option.some.inj same)
  simp only [State.lexeme?, List.head?_cons, Option.map_some, isSign]
  have reads : Takes typedefs fileEnd (argumentsForm (takesTypes operand) (Grammar.assignment budget)
      (Grammar.typeName budget) budget) tokens left fun values =>
        values.map Expr.unplaced = trees.map Expr.unplaced := by
    rw [takesTypes_eq same]
    exact .noMark some (.bind (inner budget budget (by omega) (length_lt_of_cost (by omega)) _ _ _ ahead
      ⟨.inl rfl, congrArg Option.some isClosing⟩) fun values sameValues => .expect isClosing (.pure sameValues))
  refine .skip (reads.bind fun values sameValues => .spanFrom fun span => .pure ⟨_, rfl, ?_⟩)
  simp [Expr.unplaced, same, sameValues]

theorem member {name : String} {throughPointer : Bool} (span : Span)
    (further : (suffixes (.member span inside name throughPointer) tree).IsRead typedefs more) :
    (suffixes inside tree).IsRead typedefs
      (.mark (if throughPointer then .arrow else .dot) :: .identifier name :: more) := by
  refine suffix [.identifier name] further
    fun budget operand fileEnd token tokens between _ same isSign spelled => .get ?_
  obtain ⟨word, _, rfl, isName, rfl⟩ := spelled
  cases throughPointer <;>
  · simp only [State.lexeme?, List.head?_cons, Option.map_some, isSign, if_true, Bool.false_eq_true, if_false]
    exact .skip (.expectIdentifier isName (.spanFrom fun span => .pure ⟨_, rfl, by simp [Expr.unplaced, same]⟩))

theorem counted {operator : UnaryOperator} (span : Span) (isOperator : countingOperator? sign = some operator)
    (further : (suffixes (.unary span operator inside) tree).IsRead typedefs more) :
    (suffixes inside tree).IsRead typedefs (.mark sign :: more) := by
  refine suffix [] further fun budget operand fileEnd token tokens between _ same isSign spelled => .get ?_
  obtain rfl : tokens = between := spelled
  cases sign with
  | plusPlus | minusMinus =>
    cases isOperator
    simp only [State.lexeme?, List.head?_cons, Option.map_some, isSign]
    exact .skip (.spanFrom fun span => .pure ⟨_, rfl, by simp [Expr.unplaced, same]⟩)
  | _ => cases isOperator

variable {typesAllowed : Bool}

theorem plainArgument (value : (expr .assignment tree).IsRead typedefs lexemes)
    (starts : StartsExpr typedefs .assignment lexemes) :
    (argument typesAllowed tree).IsRead typedefs lexemes := by
  intro budget fileEnd tokens rest behind isMore enough spelled separated
  have noType : State.isAtType ⟨tokens, typedefs, fileEnd⟩ = false := by
    obtain ⟨first, others, rfl, opens, -⟩ := starts
    have next : State.lexeme? ⟨tokens, typedefs, fileEnd⟩ = some first := spelled.next?_of_head rfl
    rw [State.isAtType, next, startsType_eq, opensType_of_opensExpr opens]
  refine .get ?_
  simp only [noType, Bool.and_false, Bool.false_eq_true, if_false]
  exact .bind (value budget (by simp only [Place.height]; omega) _ _ _ spelled separated.stops)
    fun found same => .acceptComma separated (.pure ⟨_, rfl, same⟩)

theorem typeArgument (span : Span) (names : (typeName type).IsRead typedefs lexemes)
    (opens : ∃ kind, lexemes.head? = some kind ∧ opensType typedefs kind) :
    (argument true (.typeArgument span type)).IsRead typedefs lexemes := by
  intro budget fileEnd tokens rest behind isMore enough spelled separated
  obtain ⟨kind, head, opens⟩ := opens
  have isType : State.isAtType ⟨tokens, typedefs, fileEnd⟩ = true := by
    have next : State.lexeme? ⟨tokens, typedefs, fileEnd⟩ = some kind := spelled.next?_of_head head
    rw [State.isAtType, next, startsType_eq, opens]
  refine .get ?_
  simp only [isType, Bool.and_self, if_true]
  exact .bind (names budget (by omega) _ _ _ spelled separated.stopsType)
    fun found same => .spanFrom fun span => .acceptComma separated
      (.pure ⟨_, rfl, by simp [Expr.unplaced, same]⟩)

theorem lastArgument (one : (argument typesAllowed tree).IsRead typedefs lexemes) :
    (arguments typesAllowed [tree]).IsRead typedefs lexemes := ReadsItem.last one

theorem moreArguments (one : (argument typesAllowed tree).IsRead typedefs lexemes)
    (further : (arguments typesAllowed trees).IsRead typedefs more) :
    (arguments typesAllowed (tree :: trees)).IsRead typedefs (lexemes ++ .mark .comma :: more) :=
  ReadsItem.more one further

theorem intLiteral (span : Span) (spelling : String) :
    (expr .primary (.intLiteral span spelling)).IsRead typedefs [.intLiteral spelling] := by
  rintro budget enough fileEnd _ rest ⟨token, tokens, rfl, isLiteral, rfl⟩ stops
  obtain ⟨inner, rfl, -⟩ := exists_smaller enough
  refine .location fun start => .advance ?_
  rw [Option.map_some, isLiteral]
  exact .spanFrom fun span => .pure (by simp [Expr.unplaced])

theorem floatLiteral (span : Span) (spelling : String) :
    (expr .primary (.floatLiteral span spelling)).IsRead typedefs [.floatLiteral spelling] := by
  rintro budget enough fileEnd _ rest ⟨token, tokens, rfl, isLiteral, rfl⟩ stops
  obtain ⟨inner, rfl, -⟩ := exists_smaller enough
  refine .location fun start => .advance ?_
  rw [Option.map_some, isLiteral]
  exact .spanFrom fun span => .pure (by simp [Expr.unplaced])

theorem charLiteral (span : Span) (spelling : String) :
    (expr .primary (.charLiteral span spelling)).IsRead typedefs [.charLiteral spelling] := by
  rintro budget enough fileEnd _ rest ⟨token, tokens, rfl, isLiteral, rfl⟩ stops
  obtain ⟨inner, rfl, -⟩ := exists_smaller enough
  refine .location fun start => .advance ?_
  rw [Option.map_some, isLiteral]
  exact .spanFrom fun span => .pure (by simp [Expr.unplaced])

theorem stringRun_eq {pieces : List String} {tokens rest : List Token}
    (spelled : Spelled (pieces.map .stringLiteral) tokens rest) (stops : Place.primary.Stops rest) :
    stringRun tokens = (pieces, rest) := by
  induction pieces generalizing tokens with
  | nil =>
    obtain rfl : tokens = rest := spelled
    cases tokens with
    | nil => rfl
    | cons token tokens =>
      have stopped := stops token.lexeme rfl
      unfold stringRun
      split
      · next piece same =>
        rw [same] at stopped
        cases stopped
      · rfl
  | cons piece pieces ih =>
    obtain ⟨token, tokens, rfl, isPiece, spelled⟩ := spelled
    rw [stringRun, isPiece]
    simp only [ih spelled]

theorem stringLiteral {pieces : List String} (span : Span) (notEmpty : pieces ≠ []) :
    (expr .primary (.stringLiteral span pieces)).IsRead typedefs (pieces.map .stringLiteral) := by
  obtain ⟨first, others, rfl⟩ := List.exists_cons_of_ne_nil notEmpty
  rintro budget enough fileEnd _ rest ⟨token, tokens, rfl, isPiece, spelled⟩ stops
  obtain ⟨inner, rfl, -⟩ := exists_smaller enough
  have pieces : Takes typedefs fileEnd stringPieces tokens rest (· = others) := by
    refine .get ?_
    rw [stringRun_eq spelled stops]
    exact .setTokens (.pure rfl)
  refine .location fun start => .advance ?_
  rw [Option.map_some, isPiece]
  exact pieces.bind fun found same => .spanFrom fun span => .pure (by simp [Expr.unplaced, same])

theorem identifier {name : String} (span : Span) :
    (expr .primary (.identifier span name)).IsRead typedefs [.identifier name] := by
  rintro budget enough fileEnd _ rest ⟨token, tokens, rfl, isName, rfl⟩ stops
  obtain ⟨inner, rfl, -⟩ := exists_smaller enough
  refine .location fun start => .advance ?_
  rw [Option.map_some, isName]
  exact .spanFrom fun span => .pure (by simp [Expr.unplaced])

theorem parenthesized (inner : (expr .expression tree).IsRead typedefs lexemes) :
    (expr .primary tree).IsRead typedefs (.mark .leftParen :: (lexemes ++ [.mark .rightParen])) := by
  rintro budget enough fileEnd _ rest ⟨token, tokens, rfl, isParen, spelled⟩ stops
  obtain ⟨smaller, rfl, least⟩ := exists_smaller enough
  simp only [cost_append, cost_cons] at least
  obtain ⟨_, ahead, closing, _, rfl, isClosing, rfl⟩ := spelled.append
  refine .location fun start => .advance ?_
  rw [Option.map_some, isParen]
  exact .bind (inner smaller (by simp only [Place.height]; omega) _ _ _ ahead
    (.of_next (congrArg some isClosing) rfl)) fun found same => .expect isClosing (.pure same)

end Expressions

end Phrase.IsRead

end InlineMacro.Parser
