import InlineMacro.Proofs.Parser.Legible
import InlineMacro.Proofs.Parser.StatementPhrases

/-!
# Declarations and statements are read

Tokens with the lexemes of a declaration or of a statement are read as that, apart from places, and the
names behind it are those of types that it leaves. There is one lemma for each form of statement; a
statement in it is read behind what the form has read before. Only a branch without `else` looks at what
follows it.
-/

set_option autoImplicit false

namespace InlineMacro

theorem CType.unplaced_withoutBodies : ∀ type : CType,
    type.withoutBodies.unplaced = type.unplaced.withoutBodies
  | .record _ (some _) none | .record _ (some _) (some _) | .record _ none none
  | .record _ none (some _) | .enumeration (some _) none | .enumeration (some _) (some _)
  | .enumeration none none | .enumeration none (some _) | .basic _ | .named _ => rfl
  | .pointer _ target => by simp only [withoutBodies, unplaced, target.unplaced_withoutBodies]
  | .array element none => by simp only [withoutBodies, unplaced, element.unplaced_withoutBodies]
  | .array element (some _) => by simp only [withoutBodies, unplaced, element.unplaced_withoutBodies]
  | .function result _ _ => by simp only [withoutBodies, unplaced, result.unplaced_withoutBodies]
  | .qualified _ inner => by simp only [withoutBodies, unplaced, inner.unplaced_withoutBodies]

namespace Parser

variable {α β : Type} {types names behind : List String} {fileEnd : Location}
  {tokens between rest : List Token} {lexemes more : List Lexeme}

/-! ## Names of types -/

namespace Leads

variable {parser : Parse α} {post : α → Prop}

theorem modify {change : State → State} {next : Unit → Parse α}
    (changes : change ⟨tokens, types, fileEnd⟩ = ⟨tokens, names, fileEnd⟩)
    (takes : Leads names fileEnd (next ()) tokens rest behind post) :
    Leads types fileEnd (modify change >>= next) tokens rest behind post := by
  obtain ⟨value, runs, holds⟩ := takes
  rw [← changes] at runs
  exact ⟨value, runs, holds⟩

theorem inScope (takes : Leads types fileEnd parser tokens rest names post) :
    Leads types fileEnd (Parser.inScope parser) tokens rest types post :=
  .get (takes.bind fun _ holds => .modify rfl (.pure holds))

theorem present (takes : Leads types fileEnd parser tokens rest behind post) :
    Leads types fileEnd (some <$> parser) tokens rest behind fun found =>
      ∃ value, found = some value ∧ post value :=
  .map (takes.mono fun value holds => ⟨value, rfl, holds⟩)

end Leads

/-! ## Declarations -/

def StopsDeclared (tokens : List Token) : Prop :=
  next? tokens = some (.mark .comma) ∨ next? tokens = some (.mark .semicolon)

theorem StopsDeclared.stopsValue (stops : StopsDeclared tokens) : Place.assignment.Stops tokens := by
  rcases stops with next | next <;> exact .of_next next rfl

theorem StopsDeclared.ne_equal (stops : StopsDeclared tokens) : next? tokens ≠ some (.mark .equal) := by
  rcases stops with next | next <;> rw [next] <;> nofun

theorem GivesValue.stops {value : Option Initializer} (gives : GivesValue types value lexemes)
    (spelled : Spelled lexemes tokens rest) (stops : StopsDeclared rest) :
    StopsDeclarator tokens ∧ next? tokens ≠ some (.mark .leftBrace) := by
  have next : next? tokens = some (.mark .equal) ∨ StopsDeclared tokens := by
    cases gives with
    | absent =>
      obtain rfl : tokens = rest := spelled
      exact .inr stops
    | present => exact .inl (spelled.next?_of_head rfl)
  refine ⟨fun kind member => ?_, ?_⟩
  · rcases next with next | next | next <;> rw [next] at member <;> cases Option.mem_some.mp member <;>
      simp
  · rcases next with next | next | next <;> rw [next] <;> nofun

/-- Specifiers that have been read as others are, apart from places. -/
structure SameSpecifiers (given words : Specifiers) : Prop where
  storage : given.storage = words.storage
  isInline : given.isInline = words.isInline
  base : given.base.unplaced = words.base.unplaced

section Declarations

variable {given words : Specifiers} {declaration : Declaration} {budget : Nat}

theorem initDeclarator_leads {found : CType} (start : Location)
    (storage : given.storage = declaration.storage) (isInline : given.isInline = declaration.isInline)
    (typed : found.unplaced = declaration.type.unplaced)
    (gives : GivesValue (declaration.typesBehind types) declaration.initializer lexemes)
    (enough : cost lexemes ≤ budget) (spelled : Spelled lexemes tokens rest)
    (stops : StopsDeclared rest) :
    Leads types fileEnd
      (initDeclarator given start (some declaration.name) found (Grammar.initializer budget)) tokens rest
      (declaration.typesBehind types) fun read => read.unplaced = declaration.unplaced := by
  obtain ⟨name, type, kind, inlined, initializer, span⟩ := declaration
  subst storage
  subst isInline
  have valued : Takes (Declaration.typesBehind ⟨name, type, given.storage, given.isInline, initializer,
      span⟩ types) fileEnd (do
        let value ← if ← acceptMark .equal then some <$> Grammar.initializer budget else pure none
        return {
          name := name
          type := found
          storage := given.storage
          isInline := given.isInline
          initializer := value
          span := ← spanFrom start : Declaration }) tokens rest
      fun read => read.unplaced =
        Declaration.unplaced ⟨name, type, given.storage, given.isInline, initializer, span⟩ := by
    cases gives with
    | absent =>
      obtain rfl : tokens = rest := spelled
      exact .noMark stops.ne_equal (.spanFrom fun _ => .pure (by simp [Declaration.unplaced, typed]))
    | present value =>
      obtain ⟨token, behind, rfl, isEqual, spelled⟩ := spelled
      rw [cost_cons] at enough
      refine .acceptMark isEqual (.bind (value.isRead budget (by omega) _ _ _ spelled
        stops.stopsValue).present fun found ⟨read, isRead, same⟩ => ?_)
      subst isRead
      exact .spanFrom fun _ => .pure (by simp [Declaration.unplaced, typed, same])
  dsimp only [initDeclarator]
  split
  · next isType =>
    refine .modify ?_ valued
    simp only [Declaration.typesBehind, Declaration.isTypedef, isType, beq_self_eq_true, if_true,
      State.isTypedef]
    by_cases known : types.contains name <;> simp only [known, if_true, if_false, Bool.false_eq_true]
  · next notType =>
    refine .modify ?_ valued
    simp [Declaration.typesBehind, Declaration.isTypedef, notType]

variable {declared : Declarator} {base : CType}

theorem Declarator.same_typeFrom {found : Declarator} {other : CType}
    (same : found.unplaced = declared.unplaced) (sameBase : base.unplaced = other.unplaced) :
    (found.typeFrom base).unplaced = (declared.typeFrom other).unplaced := by
  rw [Declarator.unplaced_typeFrom, same, sameBase, ← Declarator.unplaced_typeFrom]

theorem Declares.further (start : Location)
    (declares : Declares words base types declaration lexemes) (same : SameSpecifiers given words)
    (isBase : given.base.withoutBodies.unplaced = base.unplaced) (enough : cost lexemes + 2 ≤ budget)
    (spelled : Spelled (.mark .comma :: lexemes) tokens rest) (stops : StopsDeclared rest) :
    Leads types fileEnd
      (furtherDeclarator given start (Grammar.declarator budget) (Grammar.initializer budget)) tokens rest
      (declaration.typesBehind types) fun taken =>
        ∃ read, taken = some (read, true) ∧ Declaration.unplaced read = declaration.unplaced := by
  obtain ⟨token, behind, rfl, isComma, spelled⟩ := spelled
  cases declares with
  | intro derives named typed storage isInline gives =>
    obtain ⟨between, ahead, spelled⟩ := spelled.append
    rw [cost_append] at enough
    refine .acceptMark isComma (.bind (derives.isRead budget (by omega) _ _ _ ahead
      (gives.stops spelled stops).1) fun found sameFound => ?_)
    have sameName : found.name = some declaration.name :=
      (Declarator.mk.inj sameFound).1.trans named
    dsimp only
    rw [sameName]
    refine .bind (initDeclarator_leads start (same.storage.trans storage) (same.isInline.trans isInline)
      ?_ gives (by omega) spelled stops) fun read sameRead => .pure ⟨read, rfl, sameRead⟩
    rw [← typed]
    exact Declarator.same_typeFrom sameFound isBase

theorem DeclaresMore.leads {declarations : List Declaration} {count : Nat}
    (start : Location) (declares : DeclaresMore words base types declarations lexemes behind)
    (same : SameSpecifiers given words) (isBase : given.base.withoutBodies.unplaced = base.unplaced)
    (enough : cost lexemes + 2 ≤ budget) (counts : lexemes.length < count)
    (spelled : Spelled lexemes tokens rest) (stops : next? rest = some (.mark .semicolon)) :
    Leads types fileEnd (collectWithin (furtherDeclarator given start (Grammar.declarator budget)
        (Grammar.initializer budget)) count) tokens rest behind fun read =>
          read.map Declaration.unplaced = declarations.map Declaration.unplaced := by
  induction declares generalizing tokens count with
  | nil types =>
    obtain ⟨last, rfl, -⟩ := exists_smaller (Nat.succ_le_of_lt counts)
    obtain rfl : tokens = rest := spelled
    have noComma : next? tokens ≠ some (.mark .comma) := by simp [stops]
    exact Leads.collectStop last (.noMark noComma (.pure rfl)) rfl
  | cons first others ih =>
    obtain ⟨last, rfl, -⟩ := exists_smaller (Nat.succ_le_of_lt counts)
    rw [← List.cons_append] at spelled
    obtain ⟨between, ahead, spelled⟩ := spelled.append
    simp only [cost_cons, cost_append, List.length_cons, List.length_append] at enough counts
    have stopsFirst : StopsDeclared between := by
      cases others with
      | nil =>
        obtain rfl : between = rest := spelled
        exact .inr stops
      | cons => exact .inl (spelled.next?_of_head rfl)
    refine .collectMore (first.further start same isBase (by omega) ahead stopsFirst)
      fun read sameRead => ?_
    refine (ih (by omega) (by omega) spelled).mono fun found sameOthers => ?_
    rw [List.map_cons, List.map_cons, sameRead, sameOthers]

theorem DeclaresMore.stops {declarations : List Declaration}
    (further : DeclaresMore words base types declarations lexemes behind)
    (spelled : Spelled (lexemes ++ [.mark .semicolon]) tokens rest) : StopsDeclared tokens := by
  cases further with
  | nil => exact .inr (spelled.next?_of_head rfl)
  | cons => exact .inl (spelled.next?_of_head rfl)

theorem initDeclarators_leads {found : Declarator} {first : Declaration}
    {others : List Declaration} {last : List Lexeme} (start : Location) (same : SameSpecifiers given words)
    (sameFound : found.unplaced = declared.unplaced) (named : declared.name = some first.name)
    (typed : declared.typeFrom words.base = first.type) (storage : words.storage = first.storage)
    (isInline : words.isInline = first.isInline)
    (gives : GivesValue (first.typesBehind types) first.initializer lexemes)
    (further : DeclaresMore words words.base.withoutBodies (first.typesBehind types) others last behind)
    (enough : cost lexemes + cost last + 2 ≤ budget)
    (spelled : Spelled (lexemes ++ (last ++ [.mark .semicolon])) tokens rest) : Leads types fileEnd
      (initDeclarators given start found (Grammar.declarator budget) (Grammar.initializer budget) budget)
      tokens rest behind fun read =>
        read.map Declaration.unplaced = (first :: others).map Declaration.unplaced := by
  obtain ⟨between, ahead, spelled⟩ := spelled.append
  have stops := further.stops spelled
  obtain ⟨_, spelledMore, semicolon, left, rfl, isSemicolon, rfl⟩ := spelled.append
  have closes : next? (semicolon :: left) = some (.mark .semicolon) := congrArg some isSemicolon
  have sameBase : given.base.withoutBodies.unplaced = words.base.withoutBodies.unplaced := by
    rw [CType.unplaced_withoutBodies, same.base, ← CType.unplaced_withoutBodies]
  have sameName : found.name = some first.name := (Declarator.mk.inj sameFound).1.trans named
  unfold initDeclarators
  rw [sameName]
  refine .bind (initDeclarator_leads start (same.storage.trans storage) (same.isInline.trans isInline)
    (typed ▸ Declarator.same_typeFrom sameFound same.base) gives (by omega) ahead stops)
    fun leading sameLeading => ?_
  refine .bind (further.leads start same sameBase (by omega) (length_lt_of_cost (by omega)) spelledMore
    closes) fun read sameRead => .expect isSemicolon (.pure ?_)
  rw [List.map_cons, List.map_cons, sameLeading, sameRead]

theorem specifiers_lead {start : List Token} (fileEnd : Location)
    (derives : Derives types (.specifiers words) lexemes)
    (further : Derives types (.declarator declared) more) (named : declared.name ≠ none)
    (enough : cost lexemes + 2 ≤ budget) (ahead : Spelled lexemes start tokens)
    (spelled : Spelled more tokens rest) :
    Takes types fileEnd (Grammar.specifiersOf budget) start tokens (SameSpecifiers · words) ∧
      next? tokens ≠ some (.mark .semicolon) := by
  obtain ⟨kind, head, opens⟩ := further.startsNamed named
  have next := spelled.next?_of_head head
  have stops : StopsSpecifiers tokens := by
    intro other member
    rw [next] at member
    cases member
    rcases opens with rfl | ⟨name, rfl⟩ | rfl | rfl <;> exact ⟨nofun, nofun⟩
  refine ⟨(derives.isRead budget enough _ _ _ ahead stops).mono fun given ⟨storage, isInline, base⟩ =>
    ⟨storage, isInline, base⟩, fun same => ?_⟩
  exact opens.ne_mark (.inr rfl) (Option.some.inj (next.symm.trans same))

theorem bareSpecifiers_lead {start : List Token} {token : Token}
    (derives : Derives types (.specifiers words) lexemes) (enough : cost lexemes + 2 ≤ budget)
    (spelled : Spelled lexemes start (token :: rest)) (isSemicolon : token.lexeme = .mark .semicolon) :
    Takes types fileEnd (Grammar.specifiersOf budget) start (token :: rest) (SameSpecifiers · words) := by
  have stops : StopsSpecifiers (token :: rest) := by
    intro other member
    cases member
    rw [isSemicolon]
    exact ⟨nofun, nofun⟩
  exact (derives.isRead budget enough _ _ _ spelled stops).mono fun given ⟨storage, isInline, base⟩ =>
    ⟨storage, isInline, base⟩

theorem DeclaresLocally.leads {statement : Statement}
    (declares : DeclaresLocally types statement lexemes behind) (enough : cost lexemes ≤ budget + 8)
    (spelled : Spelled lexemes tokens rest) :
    Leads types fileEnd (Grammar.localDeclaration budget) tokens rest behind
      fun read => read.unplaced = statement.unplaced := by
  cases declares with
  | typeDefinition span given =>
    simp only [cost_append, cost_cons, cost_nil] at enough
    obtain ⟨smaller, rfl, least⟩ := exists_smaller (show 1 ≤ budget by omega)
    obtain ⟨_, ahead, semicolon, _, rfl, isSemicolon, rfl⟩ := spelled.append
    refine .location fun start => .bind (bareSpecifiers_lead given (by omega) ahead isSemicolon)
      fun read same => .acceptMark isSemicolon (.spanFrom fun _ => .pure ?_)
    rw [Statement.unplaced, Statement.unplaced, same.base]
  | declaration span declares =>
    cases declares with
    | intro given declares further =>
      cases declares with
      | intro derives named typed storage isInline gives =>
        simp only [cost_append, cost_cons, cost_nil] at enough
        obtain ⟨smaller, rfl, least⟩ := exists_smaller (show 1 ≤ budget by omega)
        obtain ⟨between, ahead, spelled⟩ := spelled.append
        rw [List.append_assoc] at spelled
        obtain ⟨close, spelledName, spelled⟩ := spelled.append
        have ⟨reads, noSemicolon⟩ := specifiers_lead fileEnd given derives
          (by rw [named]; nofun) (show _ ≤ smaller by omega) ahead spelledName
        have stops : StopsDeclarator close := by
          obtain ⟨_, spelledValue, spelledMore⟩ := spelled.append
          exact (gives.stops spelledValue (further.stops spelledMore)).1
        refine .location fun start => .bind reads fun words same => .noMark noSemicolon ?_
        refine .bind (derives.isRead smaller (by omega) _ _ _ spelledName stops) fun found sameFound => ?_
        refine .bind (initDeclarators_leads start same sameFound named typed storage isInline gives further
          (by omega) spelled) fun read sameRead => .spanFrom fun _ => .pure ?_
        rw [Statement.unplaced, Statement.unplaced, sameRead]

end Declarations

/-! ## Statements -/

namespace Leads

theorem condition {budget : Nat} {next : Expr → Parse α} {result : α → Prop} {value : Expr}
    {context : String} (derives : Derives types (.expr .expression value) lexemes)
    (enough : cost lexemes + 32 ≤ budget) (spelled : Spelled (enclosed lexemes) tokens between)
    (others : ∀ read, Expr.unplaced read = value.unplaced →
      Leads types fileEnd (next read) between rest behind result) :
    Leads types fileEnd (conditionForm (Grammar.expression budget) context >>= next) tokens rest behind
      result := by
  obtain ⟨opening, inside, rfl, isOpening, spelled⟩ := spelled
  obtain ⟨_, ahead, closing, left, rfl, isClosing, rfl⟩ := spelled.append
  have given : Takes types fileEnd (conditionForm (Grammar.expression budget) context)
      (opening :: inside) left fun read => read.unplaced = value.unplaced :=
    .expect isOpening (.bind (derives.isRead budget (by simp only [Place.height]; omega) _ _ _ ahead
      (.of_next (congrArg some isClosing) rfl)) fun read same => .expect isClosing (.pure same))
  exact given.bind others

theorem optionalBefore {budget : Nat} {next : Option Expr → Parse α} {result : α → Prop}
    {value : Option Expr} {sign : Mark} {context : String} (given : Optionally types value lexemes)
    (enough : cost lexemes + 32 ≤ budget) (spelled : Spelled (lexemes ++ [.mark sign]) tokens between)
    (closes : sign = .semicolon ∨ sign = .rightParen)
    (others : ∀ read, Option.map Expr.unplaced read = value.map Expr.unplaced →
      Leads types fileEnd (next read) between rest behind result) :
    Leads types fileEnd (optionalBefore sign context (Grammar.expression budget) >>= next) tokens rest
      behind result := by
  obtain ⟨last, ahead, closing, left, rfl, isClosing, rfl⟩ := spelled.append
  have found : Takes types fileEnd (Parser.optionalBefore sign context (Grammar.expression budget)) tokens
      left fun read => Option.map Expr.unplaced read = value.map Expr.unplaced := by
    cases given with
    | absent =>
      obtain rfl : tokens = closing :: left := ahead
      have isAt : State.isAtMark ⟨closing :: left, types, fileEnd⟩ sign := by
        simp [State.isAtMark, State.lexeme?, isClosing]
      refine .get ?_
      dsimp only
      rw [if_pos isAt]
      exact .expect isClosing (.pure rfl)
    | present derives =>
      have opens : opensExpr types (.mark sign) = false := by rcases closes with rfl | rfl <;> rfl
      have stops : Place.expression.Stops (closing :: left) :=
        .of_next (congrArg some isClosing) (by rcases closes with rfl | rfl <;> rfl)
      have notAt : ¬State.isAtMark ⟨tokens, types, fileEnd⟩ sign := by
        rw [isAtMark_eq_false (derives.startsExpr.next?_ne ahead opens)]
        exact Bool.false_ne_true
      refine .get ?_
      dsimp only
      rw [if_neg notAt]
      refine .bind (derives.isRead budget (by simp only [Place.height]; omega) _ _ _ ahead stops).present ?_
      rintro read ⟨value, isValue, same⟩
      refine .expect isClosing (.pure ?_)
      rw [isValue, Option.map_some, same, Option.map_some]
  exact found.bind others

theorem otherForm {post : Statement → Prop} {expression conditional : Parse Expr}
    {localDeclaration block statement : Parse Statement} {kind : Lexeme}
    (next : next? tokens = some kind) (tells : tellsForm kind = false)
    (noLabel : ∀ name, kind = .identifier name →
      State.secondLexeme? ⟨tokens, types, fileEnd⟩ ≠ some (.mark .colon))
    (takes : Leads types fileEnd (declarationOrExpressionForm expression localDeclaration) tokens rest
      behind post) :
    Leads types fileEnd (statementForm expression conditional localDeclaration block statement) tokens
      rest behind post := by
  have ahead : State.lexeme? ⟨tokens, types, fileEnd⟩ = some kind := next
  have told {other : Lexeme} (same : State.lexeme? ⟨tokens, types, fileEnd⟩ = some other)
      (tellsOther : tellsForm other) : False := by
    rw [ahead, Option.some.injEq] at same
    rw [same, tellsOther] at tells
    cases tells
  refine .get ?_
  split
  · next none => rw [ahead] at none; cases none
  case h_16 name isName =>
    rw [ahead, Option.some.injEq] at isName
    exact .iteNot (fun same => noLabel name isName (beq_iff_eq.mp same)) takes
  case h_17 => exact takes
  all_goals exact (told (by assumption) rfl).elim

end Leads

theorem isAtDeclaration_of_opensExpr {kind : Lexeme} (next : next? tokens = some kind)
    (opens : opensExpr types kind) : State.isAtDeclaration ⟨tokens, types, fileEnd⟩ = false := by
  have ahead : State.lexeme? ⟨tokens, types, fileEnd⟩ = some kind := next
  have noType : State.isAtType ⟨tokens, types, fileEnd⟩ = false := by
    rw [State.isAtType, ahead, startsType_eq, opensType_of_opensExpr opens]
  unfold State.isAtDeclaration
  rw [ahead, noType]
  cases kind with
  | keyword word => cases word <;> first | rfl | cases opens
  | identifier name => exact Bool.and_false _
  | _ => rfl

theorem StartsDeclaration.isAtDeclaration (fileEnd : Location) (starts : StartsDeclaration types lexemes)
    (spelled : Spelled lexemes tokens rest) (long : 2 ≤ lexemes.length) :
    State.isAtDeclaration ⟨tokens, types, fileEnd⟩ ∧ ∃ kind, next? tokens = some kind ∧
      tellsForm kind = false ∧ ∀ name, kind = .identifier name →
        State.secondLexeme? ⟨tokens, types, fileEnd⟩ ≠ some (.mark .colon) := by
  obtain ⟨first, others, rfl, opens, second⟩ := starts
  have next := spelled.next?_of_head rfl
  obtain ⟨token, behind, rfl, isFirst, further⟩ := spelled
  have noLabel : ∀ name, first = .identifier name →
      State.secondLexeme? ⟨token :: behind, types, fileEnd⟩ ≠ some (.mark .colon) := by
    intro name isName
    have noColon := second name isName
    show next? behind ≠ _
    rw [further.next?_eq]
    cases others with
    | nil => exact absurd long (by simp)
    | cons => exact noColon
  refine ⟨?_, first, next, tellsForm_of_opensDeclaration opens, noLabel⟩
  have ahead : State.lexeme? ⟨token :: behind, types, fileEnd⟩ = some first := next
  unfold State.isAtDeclaration
  rw [ahead]
  cases first with
  | keyword word =>
    simp only [State.isAtType, ahead, startsType_eq]
    exact opens
  | identifier name =>
    simp only [State.isAtType, ahead, startsType_eq, Bool.and_eq_true, bne_iff_ne]
    exact ⟨noLabel name rfl, opens⟩
  | _ => cases opens

theorem StartsDeclaration.length_pos (starts : StartsDeclaration types lexemes) : 0 < lexemes.length := by
  obtain ⟨first, others, rfl, -⟩ := starts
  exact Nat.succ_pos _

theorem StartsDeclaration.next?_ne_semicolon (starts : StartsDeclaration types lexemes)
    (spelled : Spelled (lexemes ++ more) tokens rest) : next? tokens ≠ some (.mark .semicolon) := by
  obtain ⟨first, others, rfl, opens, -⟩ := starts
  rw [spelled.next?_of_head rfl]
  rintro ⟨⟩
  cases opens

/-! ## Every statement is read -/

/-- The parser reads lexemes as a statement, or as several in front of what ends them, and the names
behind are those of types then. -/
def StatementPhrase.IsRead (types : List String) : StatementPhrase → List Lexeme → List String → Prop
  | one statement, lexemes, behind => ∀ budget fileEnd tokens rest, cost lexemes ≤ budget →
    Spelled lexemes tokens rest → (statement.isOpen → next? rest ≠ some (.keyword .kwElse)) →
    Leads types fileEnd (Grammar.statement budget) tokens rest behind
      fun read => read.unplaced = statement.unplaced
  | several statements, lexemes, behind => ∀ budget count fileEnd tokens rest, cost lexemes ≤ budget →
    lexemes.length < count → Spelled lexemes tokens rest → next? rest = some (.mark .rightBrace) →
    Leads types fileEnd (collectWithin (statementStep (Grammar.statement budget)) count) tokens rest
      behind fun read => read.map Statement.unplaced = statements.map Statement.unplaced

namespace StatementPhrase.IsRead

variable {value : Expr} {body : Statement}

theorem secondLexeme?_ne_colon {name : String} (derives : Derives types (.expr .expression value) lexemes)
    (spelled : Spelled lexemes tokens rest) (next : next? tokens = some (.identifier name))
    (closes : next? rest = some (.mark .semicolon)) :
    State.secondLexeme? ⟨tokens, types, fileEnd⟩ ≠ some (.mark .colon) := by
  intro colon
  obtain ⟨first, others, rfl, opens, -⟩ := derives.startsExpr
  obtain ⟨token, behind, rfl, isFirst, further⟩ := spelled
  have isName : token.lexeme = .identifier name := Option.some.inj next
  have absent : name ∉ types := by
    have opensName : opensExpr types (.identifier name) := by
      rw [← isName, isFirst]
      exact opens
    simpa [opensExpr, opensOperand] using opensName
  have second : next? behind = some (.mark .colon) := colon
  have one : Derives types (.expr .expression (.identifier .synthetic name)) [.identifier name] :=
    Derives.ofPrimary (.identifier .synthetic absent) 0
  obtain ⟨_, runs, -⟩ := one.isRead (cost (first :: others) + 51) (by simp [Place.height]) fileEnd
    (token :: behind) behind ⟨token, behind, rfl, isName, rfl⟩ (.of_next second rfl)
  obtain ⟨_, runsAll, -⟩ := derives.isRead (cost (first :: others) + 51)
    (by simp only [Place.height]; omega) fileEnd (token :: behind) rest
    ⟨token, behind, rfl, isFirst, further⟩ (.of_next closes rfl)
  have same := runs.symm.trans runsAll
  have sameRest : behind = rest := by
    injection same with _ sameState
    exact congrArg State.tokens sameState
  rw [sameRest, closes] at second
  cases second

theorem expression (span : Span) (derives : Derives types (.expr .expression value) lexemes) :
    (one (.expression span value)).IsRead types (lexemes ++ [.mark .semicolon]) types := by
  intro budget fileEnd tokens rest enough spelled _
  simp only [cost_append, cost_cons, cost_nil] at enough
  obtain ⟨smaller, rfl, least⟩ := exists_smaller (show 1 ≤ budget by omega)
  obtain ⟨_, ahead, semicolon, left, rfl, isSemicolon, rfl⟩ := spelled.append
  have closes : next? (semicolon :: left) = some (.mark .semicolon) := congrArg some isSemicolon
  obtain ⟨first, others, rfl, opens, -⟩ := derives.startsExpr
  have next := ahead.next?_of_head rfl
  refine .otherForm next (tellsForm_of_opensExpr opens) ?_ (.get ?_)
  · rintro name rfl
    exact secondLexeme?_ne_colon derives ahead next closes
  · refine .iteNot (by rw [isAtDeclaration_of_opensExpr next opens]; nofun) ?_
    refine .bind (derives.isRead smaller (by simp only [Place.height]; omega) _ _ _ ahead
      (.of_next closes rfl)) fun read same => .expect isSemicolon (.spanFrom fun _ => .pure ?_)
    rw [Statement.unplaced, Statement.unplaced, same]

theorem declaration {statement : Statement} (declares : DeclaresLocally types statement lexemes behind) :
    (one statement).IsRead types lexemes behind := by
  intro budget fileEnd tokens rest enough spelled _
  have long := declares.two_le_length
  obtain ⟨smaller, rfl, least⟩ := exists_smaller (show 1 ≤ budget by unfold cost at enough; omega)
  obtain ⟨isAt, kind, next, tells, noLabel⟩ := declares.startsDeclaration.isAtDeclaration fileEnd spelled long
  exact .otherForm next tells noLabel (.get (.ite isAt (declares.leads (by omega) spelled)))

/-- A statement is read by what it starts with. -/
theorem ofHead {statement : Statement} {kind : Lexeme} (leads : ∀ budget fileEnd tokens rest,
      cost lexemes + 31 ≤ budget → Spelled (kind :: lexemes) tokens rest →
      (statement.isOpen → next? rest ≠ some (.keyword .kwElse)) → State.lexeme? ⟨tokens, types, fileEnd⟩ = some kind →
      Leads types fileEnd (Grammar.statement (budget + 1)) tokens rest behind
        fun read => read.unplaced = statement.unplaced) :
    (one statement).IsRead types (kind :: lexemes) behind := by
  intro budget fileEnd tokens rest enough spelled noElse
  obtain ⟨smaller, rfl, least⟩ := exists_smaller (show cost lexemes + 31 + 1 ≤ budget from enough)
  exact leads smaller fileEnd tokens rest (by omega) spelled noElse (spelled.next?_of_head rfl)

variable {statements : List Statement}

theorem blockLeads {budget : Nat} (span : Span)
    (inner : (several statements).IsRead types lexemes behind) (enough : cost lexemes + 2 ≤ budget)
    (spelled : Spelled (.mark .leftBrace :: (lexemes ++ [.mark .rightBrace])) tokens rest) :
    Takes types fileEnd (Grammar.block budget) tokens rest
      fun read => read.unplaced = (Statement.block span statements).unplaced := by
  obtain ⟨smaller, rfl, least⟩ := exists_smaller (show 1 ≤ budget by omega)
  obtain ⟨opening, inside, rfl, isOpening, spelled⟩ := spelled
  obtain ⟨_, ahead, closing, left, rfl, isClosing, rfl⟩ := spelled.append
  refine .location fun start => .expect isOpening ?_
  refine .bind (.inScope (.bind (inner smaller smaller fileEnd _ _ (by omega)
    (length_lt_of_cost (by omega)) ahead (congrArg some isClosing)) fun read same =>
      .expect isClosing (.pure same))) fun read same => .spanFrom fun _ => .pure ?_
  rw [Statement.unplaced, Statement.unplaced, Statement.listUnplaced_eq, same, Statement.listUnplaced_eq]

theorem block (span : Span)
    (inner : (several statements).IsRead types lexemes behind) : (one (.block span statements)).IsRead types
      (.mark .leftBrace :: (lexemes ++ [.mark .rightBrace])) types := by
  refine .ofHead fun smaller fileEnd tokens rest enough spelled _ next => .get ?_
  rw [next]
  simp only [cost_append, cost_cons, cost_nil] at enough
  exact blockLeads span inner (by omega) spelled

section Conditions

variable {condition subject : Expr} (span : Span)

theorem ifThen (derives : Derives types (.expr .expression condition) lexemes)
    (inner : (one body).IsRead types more behind) : (one (.ifElse span condition body none)).IsRead types
      (.keyword .kwIf :: (enclosed lexemes ++ more)) behind := by
  refine .ofHead fun smaller fileEnd tokens rest enough spelled noElse next => .get ?_
  rw [next]
  simp only [cost_append, cost_cons, cost_nil, enclosed] at enough
  obtain ⟨word, inside, rfl, isWord, spelled⟩ := spelled
  obtain ⟨between, ahead, spelled⟩ := spelled.append
  refine .location fun start => .expect isWord (.condition derives (by omega) ahead fun read same => ?_)
  refine .bind (inner smaller fileEnd _ _ (by omega) spelled fun _ => noElse rfl)
    fun found sameBody => .noKeyword (noElse rfl) ?_
  show Leads behind fileEnd (spanFrom start >>= fun span =>
    pure (Statement.ifElse span read found none)) rest rest behind _
  exact .spanFrom fun _ => .pure (by simp only [Statement.unplaced, same, sameBody])

theorem ifElse {middle : List String} {last : List Lexeme} {elseBranch : Statement}
    (derives : Derives types (.expr .expression condition) lexemes)
    (inner : (one body).IsRead types more middle) (closed : body.isOpen = false)
    (other : (one elseBranch).IsRead middle last behind) :
    (one (.ifElse span condition body (some elseBranch))).IsRead types
      (.keyword .kwIf :: (enclosed lexemes ++ (more ++ .keyword .kwElse :: last))) behind := by
  refine .ofHead fun smaller fileEnd tokens rest enough spelled noElse next => .get ?_
  rw [next]
  simp only [cost_append, cost_cons, cost_nil, enclosed] at enough
  obtain ⟨word, inside, rfl, isWord, spelled⟩ := spelled
  obtain ⟨between, ahead, spelled⟩ := spelled.append
  obtain ⟨_, aheadThen, otherwise, further, rfl, isElse, spelled⟩ := spelled.append
  refine .location fun start => .expect isWord (.condition derives (by omega) ahead fun read same => ?_)
  refine .bind (inner smaller fileEnd _ _ (by omega) aheadThen fun isOpen => ?_)
    fun found sameThen => .acceptKeyword isElse ?_
  · rw [closed] at isOpen
    cases isOpen
  · refine .bind (other smaller fileEnd _ _ (by omega) spelled noElse).present
      fun found ⟨read, isRead, sameElse⟩ => ?_
    subst isRead
    exact .spanFrom fun _ => .pure (by simp only [Statement.unplaced, same, sameThen, sameElse])

theorem conditioned {word : Keyword} {context : String} {build : Span → Expr → Statement → Statement}
    {budget : Nat} {post : Statement → Prop} (derives : Derives types (.expr .expression condition) lexemes)
    (inner : (one body).IsRead types more behind) (enough : cost lexemes + cost more + 32 ≤ budget)
    (spelled : Spelled (.keyword word :: (enclosed lexemes ++ more)) tokens rest)
    (noElse : body.isOpen → next? rest ≠ some (.keyword .kwElse))
    (built : ∀ span read found, Expr.unplaced read = condition.unplaced →
      Statement.unplaced found = body.unplaced → post (build span read found)) :
    Leads types fileEnd (do
      let start ← location
      expectKeyword word context
      let condition ← conditionForm (Grammar.expression budget) context
      let body ← Grammar.statement budget
      return build (← spanFrom start) condition body) tokens rest behind post := by
  obtain ⟨opening, inside, rfl, isWord, spelled⟩ := spelled
  obtain ⟨between, ahead, spelled⟩ := spelled.append
  refine .location fun start => .expect isWord (.condition derives (by omega) ahead
    fun read same => .bind (inner budget fileEnd _ _ (by omega) spelled noElse) fun found sameBody =>
      .spanFrom fun _ => .pure (built _ _ _ same sameBody))

theorem whileLoop (derives : Derives types (.expr .expression condition) lexemes)
    (inner : (one body).IsRead types more behind) : (one (.whileLoop span condition body)).IsRead types
      (.keyword .kwWhile :: (enclosed lexemes ++ more)) behind := by
  refine .ofHead fun smaller fileEnd tokens rest enough spelled noElse next => .get ?_
  rw [next]
  simp only [cost_append, cost_cons, cost_nil, enclosed] at enough
  exact conditioned derives inner (by omega) spelled noElse fun _ _ _ same sameBody => by
    simp only [Statement.unplaced, same, sameBody]

theorem switch (derives : Derives types (.expr .expression subject) lexemes)
    (inner : (one body).IsRead types more behind) : (one (.switch span subject body)).IsRead types
      (.keyword .kwSwitch :: (enclosed lexemes ++ more)) behind := by
  refine .ofHead fun smaller fileEnd tokens rest enough spelled noElse next => .get ?_
  rw [next]
  simp only [cost_append, cost_cons, cost_nil, enclosed] at enough
  exact conditioned derives inner (by omega) spelled noElse fun _ _ _ same sameBody => by
    simp only [Statement.unplaced, same, sameBody]

theorem doWhile (inner : (one body).IsRead types lexemes behind)
    (derives : Derives behind (.expr .expression condition) more) :
    (one (.doWhile span body condition)).IsRead types
      (.keyword .kwDo :: (lexemes ++ .keyword .kwWhile :: (enclosed more ++ [.mark .semicolon]))) behind := by
  refine .ofHead fun smaller fileEnd tokens rest enough spelled _ next => .get ?_
  rw [next]
  simp only [cost_append, cost_cons, cost_nil, enclosed] at enough
  obtain ⟨word, inside, rfl, isWord, spelled⟩ := spelled
  obtain ⟨_, ahead, last, further, rfl, isWhile, spelled⟩ := spelled.append
  obtain ⟨_, tested, semicolon, left, rfl, isSemicolon, rfl⟩ := spelled.append
  refine .location fun start => .expect isWord ?_
  refine .bind (inner smaller fileEnd _ _ (by omega) ahead fun _ => ?_) fun found sameBody =>
    .expect isWhile (.condition derives (by omega) tested fun read same =>
      .expect isSemicolon (.spanFrom fun _ => .pure ?_))
  · simp [next?, isWhile]
  · simp only [Statement.unplaced, same, sameBody]

end Conditions

section Loops

variable {init : Option Statement} {condition update : Option Expr} {budget : Nat}

theorem loopInitLeads (opens : OpensLoop types init lexemes behind) (enough : cost lexemes ≤ budget + 8)
    (spelled : Spelled lexemes tokens rest) :
    Leads types fileEnd (loopInitForm (Grammar.expression budget) (Grammar.localDeclaration budget)) tokens
      rest behind fun read => read.map Statement.unplaced = init.map Statement.unplaced := by
  cases opens with
  | absent =>
    obtain ⟨semicolon, _, rfl, isSemicolon, rfl⟩ := spelled
    exact .acceptMark isSemicolon (.pure rfl)
  | expression span derives =>
    obtain ⟨_, ahead, semicolon, left, rfl, isSemicolon, rfl⟩ := spelled.append
    simp only [cost_append, cost_cons, cost_nil] at enough
    obtain ⟨first, others, rfl, opens, -⟩ := derives.startsExpr
    have next := ahead.next?_of_head rfl
    have noSemicolon : next? tokens ≠ some (.mark .semicolon) := by
      rw [next]
      rintro same
      cases same
      cases opens
    refine .noMark noSemicolon (.get (.iteNot ?_ (.location fun start => ?_)))
    · rw [isAtDeclaration_of_opensExpr next opens]
      exact Bool.false_ne_true
    · refine .bind (derives.isRead budget (by simp only [Place.height]; omega) _ _ _ ahead
        (.of_next (congrArg some isSemicolon) rfl)) fun read same =>
          .expect isSemicolon (.spanFrom fun _ => .pure ?_)
      simp only [Option.map_some, Statement.unplaced, same]
  | declaration declares =>
    obtain ⟨isAt, kind, next, tells, -⟩ :=
      declares.startsDeclaration.isAtDeclaration fileEnd spelled declares.two_le_length
    have noSemicolon : next? tokens ≠ some (.mark .semicolon) := by
      rw [next]
      rintro same
      cases same
      cases tells
    refine .noMark noSemicolon (.get (.ite isAt ?_))
    refine (declares.leads enough spelled).present.mono ?_
    rintro read ⟨value, isValue, same⟩
    rw [isValue, Option.map_some, same, Option.map_some]

theorem forLoop {middle : List String} {tested updated : List Lexeme} (span : Span)
    (opens : OpensLoop types init lexemes middle) (first : Optionally middle condition tested)
    (second : Optionally middle update updated) (inner : (one body).IsRead middle more behind) :
    (one (.forLoop span init condition update body)).IsRead types (.keyword .kwFor :: .mark .leftParen ::
        (lexemes ++ (tested ++ .mark .semicolon :: (updated ++ .mark .rightParen :: more)))) types := by
  refine .ofHead fun smaller fileEnd tokens rest enough spelled noElse next => .get ?_
  rw [next]
  simp only [cost_cons, cost_append] at enough
  obtain ⟨word, _, rfl, isWord, opening, inside, rfl, isOpening, spelled⟩ := spelled
  obtain ⟨afterInit, aheadInit, spelled⟩ := spelled.append
  have parted : Spelled ((tested ++ [.mark .semicolon]) ++ ((updated ++ [.mark .rightParen]) ++ more))
      afterInit rest := by
    simpa only [List.append_assoc, List.singleton_append] using spelled
  obtain ⟨afterTest, aheadTest, spelled⟩ := parted.append
  obtain ⟨afterUpdate, aheadUpdate, spelled⟩ := spelled.append
  refine .location fun start => .expect isWord (.expect isOpening (.inScope
    (?_ : Leads types fileEnd _ inside rest behind _)))
  refine .bind (loopInitLeads opens (by omega) aheadInit) fun readInit sameInit => ?_
  refine .optionalBefore first (by omega) aheadTest (.inl rfl) fun readTest sameTest => ?_
  refine .optionalBefore second (by omega) aheadUpdate (.inr rfl) fun readUpdate sameUpdate => ?_
  refine .bind (inner smaller fileEnd _ _ (by omega) spelled noElse) fun found sameBody =>
    .spanFrom fun _ => .pure ?_
  cases init with
  | none =>
    obtain rfl := Option.map_eq_none_iff.mp sameInit
    simp only [Statement.unplaced, sameTest, sameUpdate, sameBody]
  | some init =>
    obtain ⟨read, rfl, same⟩ := Option.map_eq_some_iff.mp sameInit
    simp only [Statement.unplaced, same, sameTest, sameUpdate, sameBody]

end Loops

/-! ### Labels and jumps -/

theorem caseLabel {value : Expr} (span : Span) (derives : Derives types (.expr .conditional value) lexemes)
    (inner : (one body).IsRead types more behind) : (one (.caseLabel span value body)).IsRead types
      (.keyword .kwCase :: (lexemes ++ .mark .colon :: more)) behind := by
  refine .ofHead fun smaller fileEnd tokens rest enough spelled noElse next => .get ?_
  rw [next]
  simp only [cost_cons, cost_append] at enough
  obtain ⟨word, inside, rfl, isWord, spelled⟩ := spelled
  obtain ⟨_, ahead, colon, left, rfl, isColon, spelled⟩ := spelled.append
  refine .location fun start => .skip (.bind (derives.isRead smaller (by simp only [Place.height]; omega)
    _ _ _ ahead (.of_next (congrArg some isColon) rfl)) fun read same => .expect isColon ?_)
  refine .bind (inner smaller fileEnd _ _ (by omega) spelled noElse) fun found sameBody =>
    .spanFrom fun _ => .pure ?_
  simp only [Statement.unplaced, same, sameBody]

theorem defaultLabel (span : Span) (inner : (one body).IsRead types more behind) :
    (one (.defaultLabel span body)).IsRead types (.keyword .kwDefault :: .mark .colon :: more) behind := by
  refine .ofHead fun smaller fileEnd tokens rest enough spelled noElse next => .get ?_
  rw [next]
  simp only [cost_cons] at enough
  obtain ⟨word, _, rfl, isWord, colon, left, rfl, isColon, spelled⟩ := spelled
  refine .location fun start => .skip (.expect isColon (.bind (inner smaller fileEnd _ _ (by omega) spelled
    noElse) fun found sameBody => .spanFrom fun _ => .pure ?_))
  simp only [Statement.unplaced, sameBody]

theorem labelled (span : Span) (label : String) (inner : (one body).IsRead types more behind) :
    (one (.labelled span label body)).IsRead types (.identifier label :: .mark .colon :: more) behind := by
  refine .ofHead fun smaller fileEnd tokens rest enough spelled noElse next => .get ?_
  rw [next]
  simp only [cost_cons] at enough
  obtain ⟨name, _, rfl, isName, colon, left, rfl, isColon, spelled⟩ := spelled
  have second : State.secondLexeme? ⟨name :: colon :: left, types, fileEnd⟩ = some (.mark .colon) :=
    congrArg some isColon
  refine .ite (beq_iff_eq.mpr second) (.location fun start => .skip (.skip (.bind
    (inner smaller fileEnd _ _ (by omega) spelled noElse) fun found sameBody =>
      .spanFrom fun _ => .pure ?_)))
  simp only [Statement.unplaced, sameBody]

theorem returnStatement {value : Option Expr} (span : Span) (given : Optionally types value lexemes) :
    (one (.returnStatement span value)).IsRead types
      (.keyword .kwReturn :: (lexemes ++ [.mark .semicolon])) types := by
  refine .ofHead fun smaller fileEnd tokens rest enough spelled _ next => .get ?_
  rw [next]
  simp only [cost_append, cost_cons, cost_nil] at enough
  obtain ⟨word, inside, rfl, isWord, spelled⟩ := spelled
  refine .location fun start => .skip (.optionalBefore given (by omega) spelled (.inl rfl)
    fun read same => .spanFrom fun _ => .pure ?_)
  simp only [Statement.unplaced, same]

theorem gotoStatement (span : Span) (label : String) : (one (.gotoStatement span label)).IsRead types
    [.keyword .kwGoto, .identifier label, .mark .semicolon] types := by
  refine .ofHead fun smaller fileEnd tokens rest enough spelled _ next => .get ?_
  rw [next]
  obtain ⟨word, _, rfl, isWord, name, _, rfl, isName, semicolon, _, rfl, isSemicolon, rfl⟩ := spelled
  exact .location fun start => .skip (.expectIdentifier isName (.expect isSemicolon
    (.spanFrom fun _ => .pure rfl)))

theorem wordLeads {word : Keyword} {context : String} {build : Span → Statement} {post : Statement → Prop}
    (spelled : Spelled [.keyword word, .mark .semicolon] tokens rest) (built : ∀ span, post (build span)) :
    Takes types fileEnd (wordForm context build) tokens rest post := by
  obtain ⟨first, _, rfl, isFirst, semicolon, _, rfl, isSemicolon, rfl⟩ := spelled
  exact .location fun start => .skip (.expect isSemicolon (.spanFrom fun _ => .pure (built _)))

theorem breakStatement (span : Span) :
    (one (.breakStatement span)).IsRead types [.keyword .kwBreak, .mark .semicolon] types := by
  refine .ofHead fun smaller fileEnd tokens rest enough spelled _ next => .get ?_
  rw [next]
  exact wordLeads spelled fun _ => rfl

theorem continueStatement (span : Span) :
    (one (.continueStatement span)).IsRead types [.keyword .kwContinue, .mark .semicolon] types := by
  refine .ofHead fun smaller fileEnd tokens rest enough spelled _ next => .get ?_
  rw [next]
  exact wordLeads spelled fun _ => rfl

theorem empty (span : Span) : (one (.empty span)).IsRead types [.mark .semicolon] types := by
  refine .ofHead fun smaller fileEnd tokens rest enough spelled _ next => .get ?_
  rw [next]
  obtain ⟨semicolon, _, rfl, isSemicolon, rfl⟩ := spelled
  exact .skip (.spanFrom fun _ => .pure rfl)

/-! ### Several statements -/

theorem nil (types : List String) : (several []).IsRead types [] types := by
  intro budget count fileEnd tokens rest _ counts spelled closes
  obtain ⟨last, rfl, -⟩ := exists_smaller (Nat.succ_le_of_lt counts)
  obtain rfl : tokens = rest := spelled
  refine Leads.collectStop last (.get (.ite ?_ (.pure rfl))) rfl
  have isAt : State.isAtMark ⟨tokens, types, fileEnd⟩ .rightBrace := beq_iff_eq.mpr closes
  rw [isAt, Bool.true_or]

theorem cons {middle : List String} {statement : Statement}
    (first : (one statement).IsRead types lexemes middle)
    (starts : ∃ kind, lexemes.head? = some kind ∧ endsStatements kind = false)
    (others : (several statements).IsRead middle more behind)
    (goesOn : more = [] ∨ ∃ kind, more.head? = some kind ∧ endsStatements kind = false) :
    (several (statement :: statements)).IsRead types (lexemes ++ more) behind := by
  intro budget count fileEnd tokens rest enough counts spelled closes
  simp only [cost_append] at enough
  simp only [List.length_append] at counts
  obtain ⟨between, ahead, spelled⟩ := spelled.append
  obtain ⟨kind, head, open'⟩ := starts
  have some : 1 ≤ lexemes.length := by
    cases lexemes with
    | nil => cases head
    | cons => exact Nat.le_add_left 1 _
  obtain ⟨last, rfl, -⟩ := exists_smaller (Nat.succ_le_of_lt counts)
  have next := ahead.next?_of_head head
  have goesOnHere : ¬(State.isAtMark ⟨tokens, types, fileEnd⟩ .rightBrace ||
      State.isAtEnd ⟨tokens, types, fileEnd⟩) = true := by
    have ahead' : State.lexeme? ⟨tokens, types, fileEnd⟩ = Option.some kind := next
    rw [State.isAtMark, State.isAtEnd, ahead']
    cases kind <;> simp_all [endsStatements]
  have noElse : next? between ≠ Option.some (.keyword .kwElse) := by
    rcases goesOn with rfl | ⟨other, headOther, opens⟩
    · obtain rfl : between = rest := spelled
      simp [closes]
    · rw [spelled.next?_of_head headOther]
      rintro ⟨⟩
      cases opens
  refine .collectMore (.get (.iteNot goesOnHere (.bind (first budget fileEnd _ _ (by omega) ahead
    fun _ => noElse) fun found same => .pure ⟨found, rfl, same⟩))) fun found same => ?_
  refine (others budget last fileEnd _ _ (by omega) (by omega) spelled closes).mono fun read sameOthers => ?_
  rw [List.map_cons, List.map_cons, same, sameOthers]

end StatementPhrase.IsRead

theorem Forms.isRead {phrase : StatementPhrase} (forms : Forms types phrase lexemes behind) :
    phrase.IsRead types lexemes behind := by
  induction forms with
  | expression span value => exact .expression span value
  | declaration declares => exact .declaration declares
  | block span _ ih => exact .block span ih
  | ifThen span condition _ ih => exact .ifThen span condition ih
  | ifElse span condition _ closed _ ih ihElse => exact .ifElse span condition ih closed ihElse
  | whileLoop span condition _ ih => exact .whileLoop span condition ih
  | forLoop span opens first second _ ih => exact .forLoop span opens first second ih
  | doWhile span _ condition ih => exact .doWhile span ih condition
  | switch span subject _ ih => exact .switch span subject ih
  | caseLabel span value _ ih => exact .caseLabel span value ih
  | defaultLabel span _ ih => exact .defaultLabel span ih
  | breakStatement span => exact .breakStatement span
  | continueStatement span => exact .continueStatement span
  | returnStatement span given => exact .returnStatement span given
  | gotoStatement span label => exact .gotoStatement span label
  | labelled span label _ ih => exact .labelled span label ih
  | empty span => exact .empty span
  | nil types => exact .nil types
  | cons first others ih ihOthers =>
    exact .cons ih first.starts ihOthers others.startsSeveral

/-! ## Units -/

section Units

variable {budget : Nat} {words : Specifiers}

theorem typeItem_leads (span : Span) (given : Derives types (.specifiers words) lexemes)
    (enough : cost lexemes + 2 ≤ budget) (spelled : Spelled (lexemes ++ [.mark .semicolon]) tokens rest) :
    Takes types fileEnd (Grammar.item budget) tokens rest
      fun read => read.map Item.unplaced = [Item.typeDefinition words.base span].map Item.unplaced := by
  have next := given.startsDeclaration.next?_ne_semicolon spelled
  obtain ⟨_, ahead, semicolon, left, rfl, isSemicolon, rfl⟩ := spelled.append
  refine .location fun start => .noMark next (.bind (bareSpecifiers_lead given enough ahead isSemicolon)
    fun read same => .acceptMark isSemicolon (.spanFrom fun _ => .pure ?_))
  simp only [List.map_cons, List.map_nil, Item.unplaced, same.base]

theorem declarationItems_leads {declarations : List Declaration}
    (declares : DeclaresAll types declarations lexemes behind) (enough : cost lexemes ≤ budget + 8)
    (spelled : Spelled lexemes tokens rest) : Leads types fileEnd (Grammar.item budget) tokens rest behind
      fun read => read.map Item.unplaced = (declarations.map Item.declaration).map Item.unplaced := by
  have next : next? tokens ≠ some (.mark .semicolon) := by
    rw [← List.append_nil lexemes] at spelled
    exact declares.startsDeclaration.next?_ne_semicolon spelled
  cases declares with
  | intro given declares further =>
    cases declares with
    | intro derives named typed storage isInline gives =>
      simp only [cost_append, cost_cons, cost_nil] at enough
      obtain ⟨between, ahead, spelled⟩ := spelled.append
      rw [List.append_assoc] at spelled
      obtain ⟨close, spelledName, spelled⟩ := spelled.append
      have ⟨reads, noSemicolon⟩ := specifiers_lead fileEnd given derives (by rw [named]; nofun)
        (show _ ≤ budget by omega) ahead spelledName
      have stops : StopsDeclarator close ∧ next? close ≠ some (.mark .leftBrace) := by
        obtain ⟨_, spelledValue, spelledMore⟩ := spelled.append
        exact gives.stops spelledValue (further.stops spelledMore)
      refine .location fun start => .noMark next (.bind reads fun words same => .noMark noSemicolon ?_)
      refine .bind (derives.isRead budget (by omega) _ _ _ spelledName stops.1) fun found sameFound => ?_
      refine .get ?_
      have notAt : State.isAtMark ⟨close, types, fileEnd⟩ .leftBrace = false :=
        isAtMark_eq_false stops.2 types fileEnd
      rw [notAt]
      split
      · next absurdity => cases absurdity
      · refine .bind (initDeclarators_leads start same sameFound named typed storage isInline gives further
          (by omega) spelled) fun read sameRead => .pure ?_
        have sameItems := congrArg (List.map Item.declaration) sameRead
        rw [List.map_map, List.map_map] at sameItems ⊢
        exact sameItems

theorem function_of_unplaced {type result : CType} {parameters : List Parameter} {isVariadic : Bool}
    (same : type.unplaced = CType.unplaced (.function result parameters isVariadic)) :
    ∃ found others, type = .function found others isVariadic ∧ found.unplaced = result.unplaced ∧
      others.map Parameter.unplaced = parameters.map Parameter.unplaced := by
  cases type with
  | function found others isOther =>
    simp only [CType.unplaced, Parameter.listUnplaced_eq, CType.function.injEq] at same
    obtain ⟨sameResult, sameOthers, rfl⟩ := same
    exact ⟨found, others, rfl, sameResult, sameOthers⟩
  | array element size => cases size <;> cases same
  | record kind tag fields => cases fields <;> cases same
  | enumeration tag enumerators => cases enumerators <;> cases same
  | _ => cases same

theorem functionForm_leads {definition : Function} {given : Specifiers} {result : CType}
    {parameters : List Parameter} (start : Location) (isBlock : definition.body.isBlock)
    (body : Forms types (.one definition.body) lexemes types) (enough : cost lexemes ≤ budget)
    (spelled : Spelled lexemes tokens rest) (storage : given.storage = definition.storage)
    (isInline : given.isInline = definition.isInline)
    (sameResult : result.unplaced = definition.result.unplaced)
    (sameParameters : parameters.map Parameter.unplaced = definition.parameters.map Parameter.unplaced) :
    Takes types fileEnd (Grammar.functionForm given start definition.name result parameters
      definition.isVariadic budget) tokens rest fun read => read.unplaced = definition.unplaced := by
  obtain ⟨span, statements, _, _, isBody, rfl, inner⟩ := body.of_isBlock isBlock
  simp only [cost_cons, cost_append, cost_nil] at enough
  refine .bind (StatementPhrase.IsRead.blockLeads span inner.isRead (by omega) spelled)
    fun read same => .spanFrom fun _ => .pure ?_
  simp only [Function.unplaced, storage, isInline, sameResult, sameParameters, same, isBody]

theorem functionItem_leads {definition : Function} (heads : Heads types definition lexemes)
    (isBlock : definition.body.isBlock) (body : Forms types (.one definition.body) more types)
    (enough : cost lexemes + cost more + 2 ≤ budget) (spelled : Spelled (lexemes ++ more) tokens rest) :
    Takes types fileEnd (Grammar.item budget) tokens rest
      fun read => read.map Item.unplaced = [Item.function definition].map Item.unplaced := by
  cases heads with
  | @intro words declared front middle given derives named typed storage isInline =>
    simp only [cost_append] at enough
    rw [List.append_assoc] at spelled
    have next := given.startsDeclaration.next?_ne_semicolon spelled
    obtain ⟨between, ahead, spelled⟩ := spelled.append
    obtain ⟨close, spelledName, spelled⟩ := spelled.append
    have ⟨reads, noSemicolon⟩ := specifiers_lead fileEnd given derives (by rw [named]; nofun)
      (show _ ≤ budget by omega) ahead spelledName
    have brace : next? close = some (.mark .leftBrace) := by
      obtain ⟨_, _, _, _, -, rfl, -⟩ := body.of_isBlock isBlock
      exact spelled.next?_of_head rfl
    have stops : StopsDeclarator close := by
      intro kind member
      rw [brace] at member
      cases member
      exact ⟨nofun, nofun, nofun, nofun, nofun⟩
    refine .location fun start => .noMark next (.bind reads fun given same => .noMark noSemicolon ?_)
    refine .bind (derives.isRead budget (by omega) _ _ _ spelledName stops) fun found sameFound => ?_
    have sameType := Declarator.same_typeFrom sameFound same.base
    rw [typed] at sameType
    obtain ⟨result, parameters, isFunction, sameResult, sameParameters⟩ := function_of_unplaced sameType
    have sameName : found.name = some definition.name := (Declarator.mk.inj sameFound).1.trans named
    have isAt : State.isAtMark ⟨close, types, fileEnd⟩ .leftBrace = true := beq_iff_eq.mpr brace
    refine .get ?_
    rw [isFunction, isAt, sameName]
    refine .bind (functionForm_leads start isBlock body (by omega) spelled (same.storage.trans storage)
      (same.isInline.trans isInline) sameResult sameParameters) fun read sameRead => .pure ?_
    rw [List.map_singleton, List.map_singleton, Item.unplaced, Item.unplaced, sameRead]

theorem StartsDeclaration.notAtEnd (fileEnd : Location) (starts : StartsDeclaration types lexemes)
    (spelled : Spelled (lexemes ++ more) tokens rest) : State.isAtEnd ⟨tokens, types, fileEnd⟩ = false := by
  obtain ⟨first, others, rfl, opens, -⟩ := starts
  have next : State.lexeme? ⟨tokens, types, fileEnd⟩ = some first := spelled.next?_of_head rfl
  rw [State.isAtEnd, next]
  cases first <;> first | rfl | cases opens

variable {items : List Item}

theorem item_goesOn {group : List Item} {count : Nat} {middle : List String}
    (notAtEnd : State.isAtEnd ⟨tokens, types, fileEnd⟩ = false)
    (first : Leads types fileEnd (Grammar.item budget) tokens between middle
      fun read => read.map Item.unplaced = group.map Item.unplaced)
    (others : Leads middle fileEnd (collectWithin (Grammar.itemStep budget) count) between rest behind
      fun groups => groups.flatten.map Item.unplaced = items.map Item.unplaced) :
    Leads types fileEnd (collectWithin (Grammar.itemStep budget) (count + 1)) tokens rest behind
      fun groups => groups.flatten.map Item.unplaced = (group ++ items).map Item.unplaced := by
  refine .collectMore (.get (.iteNot (by rw [notAtEnd]; nofun) (first.bind fun read same =>
    .pure ⟨read, rfl, same⟩))) fun read same => others.mono fun groups sameOthers => ?_
  rw [List.flatten_cons, List.map_append, List.map_append, same, sameOthers]

theorem FormsItems.leads {count : Nat} {last : Token}
    (forms : FormsItems types items lexemes behind) (enough : cost lexemes + 2 ≤ budget)
    (counts : lexemes.length < count) (spelled : Spelled lexemes tokens [last])
    (isEnd : last.lexeme = .endOfFile) :
    Leads types fileEnd (collectWithin (Grammar.itemStep budget) count) tokens [last] behind
      fun groups => groups.flatten.map Item.unplaced = items.map Item.unplaced := by
  induction forms generalizing tokens count with
  | nil types =>
    obtain ⟨count, rfl, -⟩ := exists_smaller (Nat.succ_le_of_lt counts)
    obtain rfl : tokens = [last] := spelled
    have atEnd : State.isAtEnd ⟨[last], types, fileEnd⟩ := by simp [State.isAtEnd, State.lexeme?, isEnd]
    exact Leads.collectStop count (.get (.ite atEnd (.pure rfl))) rfl
  | typeDefinition span given others ih =>
    obtain ⟨count, rfl, -⟩ := exists_smaller (Nat.succ_le_of_lt counts)
    simp only [cost_append, cost_cons] at enough
    simp only [List.length_append, List.length_cons] at counts
    have notAtEnd := given.startsDeclaration.notAtEnd fileEnd spelled
    rw [← List.singleton_append, ← List.append_assoc] at spelled
    obtain ⟨between, ahead, spelled⟩ := spelled.append
    exact item_goesOn notAtEnd (typeItem_leads span given (by omega) ahead)
      (ih (by omega) (by omega) spelled)
  | declarations declares others ih =>
    obtain ⟨count, rfl, -⟩ := exists_smaller (Nat.succ_le_of_lt counts)
    simp only [cost_append] at enough
    simp only [List.length_append] at counts
    have some := declares.startsDeclaration.length_pos
    have notAtEnd := declares.startsDeclaration.notAtEnd fileEnd spelled
    obtain ⟨between, ahead, spelled⟩ := spelled.append
    exact item_goesOn notAtEnd (declarationItems_leads declares (by omega) ahead)
      (ih (by omega) (by omega) spelled)
  | function heads isBlock body others ih =>
    obtain ⟨count, rfl, -⟩ := exists_smaller (Nat.succ_le_of_lt counts)
    simp only [cost_append] at enough
    simp only [List.length_append] at counts
    have some := heads.startsDeclaration.length_pos
    have notAtEnd := heads.startsDeclaration.notAtEnd fileEnd spelled
    rw [← List.append_assoc] at spelled
    obtain ⟨between, ahead, spelled⟩ := spelled.append
    exact item_goesOn notAtEnd (functionItem_leads heads isBlock body (by omega) ahead)
      (ih (by omega) (by omega) spelled)

theorem Grammar.unit_leads {last : Token} (span : Span)
    (forms : FormsItems types items lexemes behind) (enough : cost lexemes + 2 ≤ budget)
    (spelled : Spelled lexemes tokens [last]) (isEnd : last.lexeme = .endOfFile) :
    Leads types fileEnd (Grammar.unit budget) tokens [last] behind
      fun read => read.unplaced = CompilationUnit.unplaced ⟨items, span⟩ := by
  refine .location fun start => .bind (forms.leads enough (length_lt_of_cost (by omega)) spelled isEnd)
    fun groups same => .location fun stop => .pure ?_
  rw [CompilationUnit.unplaced, CompilationUnit.unplaced, same]

end Units

end Parser

end InlineMacro
