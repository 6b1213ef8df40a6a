import InlineMacro.Proofs.Parser.DeclaratorReading

/-!
# What stands in braces is read

Lists of initializers, the fields of records and the constants of enumerations. A list goes on until
its closing brace stands here.
-/

set_option autoImplicit false

namespace InlineMacro.Parser

/-! ## Where a list ends -/

section Ends

variable {tokens : List Token} {kind : Lexeme}

theorem goesOn_of_next (next : next? tokens = some kind) (notBrace : kind ≠ .mark .rightBrace)
    (notEnd : kind ≠ .endOfFile) (typedefs : List String) (fileEnd : Location) :
    ¬(State.isAtMark ⟨tokens, typedefs, fileEnd⟩ .rightBrace ||
      State.isAtEnd ⟨tokens, typedefs, fileEnd⟩) = true := by
  have noBrace : State.isAtMark ⟨tokens, typedefs, fileEnd⟩ .rightBrace = false :=
    isAtMark_eq_false (by rw [next]; exact fun same => notBrace (Option.some.inj same)) _ _
  have noEnd : State.isAtEnd ⟨tokens, typedefs, fileEnd⟩ = false := by
    have ahead : State.lexeme? ⟨tokens, typedefs, fileEnd⟩ = some kind := next
    unfold State.isAtEnd
    rw [ahead]
    cases kind <;> first | rfl | exact absurd rfl notEnd
  rw [noBrace, noEnd]
  exact Bool.false_ne_true

theorem goesOn_of_identifier {name : String} (next : next? tokens = some (.identifier name))
    (typedefs : List String) (fileEnd : Location) :
    ¬(State.isAtMark ⟨tokens, typedefs, fileEnd⟩ .rightBrace ||
      State.isAtEnd ⟨tokens, typedefs, fileEnd⟩) = true :=
  goesOn_of_next next (by simp) (by simp) typedefs fileEnd

theorem isAtBrace_of_closes (closes : Closes .rightBrace tokens) (typedefs : List String)
    (fileEnd : Location) : (State.isAtMark ⟨tokens, typedefs, fileEnd⟩ .rightBrace ||
      State.isAtEnd ⟨tokens, typedefs, fileEnd⟩) = true := by
  have isBrace : State.isAtMark ⟨tokens, typedefs, fileEnd⟩ .rightBrace = true :=
    beq_iff_eq.mpr closes.2
  rw [isBrace, Bool.true_or]

theorem closes_of_brace {token : Token} (brace : token.lexeme = .mark .rightBrace) :
    Closes .rightBrace (token :: tokens) := ⟨.inr rfl, congrArg some brace⟩

end Ends

theorem stopsSpecifiers_of_mark {token : Token} {sign : Mark} {tokens : List Token}
    (isMark : token.lexeme = .mark sign) (notBrace : sign ≠ .leftBrace) :
    StopsSpecifiers (token :: tokens) := by
  intro kind member
  cases member
  rw [isMark]
  exact ⟨nofun, fun same => notBrace (Lexeme.mark.inj same)⟩

namespace Phrase.IsRead

variable {typedefs : List String} {lexemes more others : List Lexeme}

/-! ## Initializers -/

section Initializers

variable {tree : Initializer} {trees : List Initializer}

theorem plainInitializer {inside : Expr} (span : Span)
    (value : (expr .assignment inside).IsRead typedefs lexemes)
    (starts : StartsExpr typedefs .assignment lexemes) :
    (initializer (.expression span inside)).IsRead typedefs lexemes := by
  intro budget enough fileEnd tokens rest spelled stops
  obtain ⟨smaller, rfl, least⟩ := exists_smaller enough
  refine .location fun start => .noMark (starts.next?_ne spelled rfl) ?_
  exact .bind (value smaller (by simp only [Place.height]; omega) _ _ _ spelled stops)
    fun found same => .spanFrom fun span => .pure (by simp [Initializer.unplaced, same])

theorem bracedInitializer (list : (Phrase.braced tree).IsRead typedefs lexemes) :
    (initializer tree).IsRead typedefs lexemes :=
  fun budget enough fileEnd tokens rest spelled _ =>
    list budget (by omega) fileEnd tokens rest spelled trivial

theorem braced (span : Span) (inner : (entries trees).IsRead typedefs lexemes) :
    (Phrase.braced (.list span trees)).IsRead typedefs
      (.mark .leftBrace :: (lexemes ++ [.mark .rightBrace])) := by
  rintro budget enough fileEnd _ rest ⟨token, tokens, rfl, isOpening, spelled⟩ -
  simp only [cost_append, cost_cons, cost_nil] at enough
  obtain ⟨smaller, rfl, least⟩ := exists_smaller enough
  obtain ⟨_, ahead, closing, _, rfl, isClosing, rfl⟩ := spelled.append
  refine .location fun start => .acceptMark isOpening ?_
  refine .bind (inner smaller smaller (by omega) (length_lt_of_cost (by omega)) _ _ _ ahead
    (closes_of_brace isClosing)) fun found same => .expect isClosing (.spanFrom fun span => ?_)
  exact .pure (by simp [Initializer.unplaced, same])

theorem plainEntry (value : (initializer tree).IsRead typedefs lexemes)
    (starts : ∃ kind, lexemes.head? = some kind ∧ (kind = .mark .leftBrace ∨ opensExpr typedefs kind)) :
    (entry tree).IsRead typedefs lexemes := by
  intro budget fileEnd tokens rest behind isMore enough spelled separated
  obtain ⟨smaller, rfl, least⟩ := exists_smaller (show cost lexemes + 20 + 1 ≤ budget from enough)
  obtain ⟨last, rfl, -⟩ := exists_smaller (show 0 + 1 ≤ smaller by omega)
  obtain ⟨kind, head, opens⟩ := starts
  have next := spelled.next?_of_head head
  have other (sign : Mark) (notOpening : sign ≠ .leftBrace)
      (noExpr : opensExpr typedefs (.mark sign) = false) : next? tokens ≠ some (.mark sign) := by
    rw [next]
    rintro same
    cases same
    rcases opens with isOpening | opens
    · exact notOpening (Lexeme.mark.inj isOpening)
    · rw [noExpr] at opens
      cases opens
  have notEnd : kind ≠ .endOfFile := by
    rintro rfl
    rcases opens with isOpening | opens
    · cases isOpening
    · cases opens
  have notClosing : kind ≠ .mark .rightBrace := by
    rintro rfl
    exact other .rightBrace nofun rfl next
  have noDesignators : Takes typedefs fileEnd (collectWithin (designatorStep
      (Grammar.conditional (last + 1))) (last + 1)) tokens tokens (· = []) :=
    .collectStop last (.noMark (other .dot nofun rfl) (.noMark (other .leftBracket nofun rfl) (.pure rfl))) rfl
  have reads : Takes typedefs fileEnd (Grammar.initializerItem (last + 1 + 1)) tokens rest
      fun value => value.unplaced = tree.unplaced :=
    .location fun start => noDesignators.bind fun found none => none ▸
      value (last + 1) (by omega) _ _ _ spelled separated.stops
  refine .get (.iteNot (goesOn_of_next next notClosing notEnd _ _) ?_)
  exact reads.bind fun found same => .acceptComma separated (.pure ⟨found, rfl, same⟩)

theorem designated {given : List Designator} (span : Span)
    (leading : (designators given).IsRead typedefs lexemes) (notEmpty : given ≠ [])
    (starts : lexemes.head? = some (.mark .dot) ∨ lexemes.head? = some (.mark .leftBracket))
    (value : (initializer tree).IsRead typedefs more) :
    (entry (.designated span given tree)).IsRead typedefs (lexemes ++ .mark .equal :: more) := by
  intro budget fileEnd tokens rest behind isMore enough spelled separated
  simp only [cost_append, cost_cons] at enough
  obtain ⟨smaller, rfl, least⟩ := exists_smaller (show cost lexemes + cost more + 52 + 1 ≤ budget by omega)
  obtain ⟨_, ahead, sign, between, rfl, isSign, spelled⟩ := spelled.append
  have reads : Takes typedefs fileEnd (Grammar.initializerItem (smaller + 1)) tokens rest
      fun value => value.unplaced = (Initializer.designated span given tree).unplaced := by
    refine .location fun start => .bind (leading smaller smaller (by omega)
      (length_lt_of_cost (by omega)) _ _ _ ahead (congrArg some isSign)) fun found same => ?_
    have foundSome : ¬found.isEmpty := by
      intro none
      rw [List.isEmpty_iff.mp none] at same
      exact notEmpty (List.map_eq_nil_iff.mp same.symm)
    refine .iteNot foundSome (.expect isSign (.bind (value smaller (by omega) _ _ _ spelled separated.stops)
      fun other sameOther => .spanFrom fun span => .pure ?_))
    simp [Initializer.unplaced, same, sameOther]
  have next : ∃ kind, next? tokens = some kind ∧ kind ≠ .mark .rightBrace ∧ kind ≠ .endOfFile := by
    rcases starts with head | head
    · exact ⟨.mark .dot, ahead.next?_of_head head, nofun, nofun⟩
    · exact ⟨.mark .leftBracket, ahead.next?_of_head head, nofun, nofun⟩
  obtain ⟨kind, next, notClosing, notEnd⟩ := next
  refine .get (.iteNot (goesOn_of_next next notClosing notEnd _ _) ?_)
  exact reads.bind fun found same => .acceptComma separated (.pure ⟨found, rfl, same⟩)

theorem noEntries : (entries []).IsRead typedefs [] :=
  ReadsItem.nil fun _ _ _ closes => .get (.ite (isAtBrace_of_closes closes _ _) (.pure rfl))

theorem lastEntry (one : (entry tree).IsRead typedefs lexemes) : (entries [tree]).IsRead typedefs lexemes :=
  ReadsItem.last one

theorem moreEntries (one : (entry tree).IsRead typedefs lexemes)
    (further : (entries trees).IsRead typedefs more) :
    (entries (tree :: trees)).IsRead typedefs (lexemes ++ .mark .comma :: more) := ReadsItem.more one further

theorem noDesignators : (designators []).IsRead typedefs [] := by
  intro budget count _ some fileEnd tokens rest spelled next
  obtain ⟨last, rfl, -⟩ := exists_smaller (Nat.succ_le_of_lt some)
  obtain rfl : tokens = rest := spelled
  exact .collectStop last (.noMark (by simp [next]) (.noMark (by simp [next]) (.pure rfl))) rfl

theorem indexDesignator {index : Expr} {given : List Designator}
    (inner : (expr .conditional index).IsRead typedefs lexemes)
    (further : (designators given).IsRead typedefs more) :
    (designators (.index index :: given)).IsRead typedefs
      (.mark .leftBracket :: (lexemes ++ .mark .rightBracket :: more)) := by
  rintro budget count least enough fileEnd _ rest ⟨token, tokens, rfl, isSign, spelled⟩ next
  obtain ⟨_, ahead, closing, between, rfl, isClosing, behind⟩ := spelled.append
  simp only [cost_append, cost_cons] at least
  simp only [List.length_cons, List.length_append] at enough
  obtain ⟨last, rfl, -⟩ := exists_smaller (Nat.succ_le_of_lt enough)
  have noDot : next? (token :: tokens) ≠ some (.mark .dot) := by simp [next?, isSign]
  have steps : Takes typedefs fileEnd (designatorStep (Grammar.conditional budget)) (token :: tokens)
      between fun taken => ∃ item, taken = some (item, true) ∧
        Designator.unplaced item = (Designator.index index).unplaced := by
    refine .noMark noDot (.acceptMark isSign (.bind (inner budget (by simp only [Place.height]; omega) _ _ _
      ahead (.of_next (congrArg some isClosing) rfl)) fun found same => .expect isClosing (.pure ?_)))
    exact ⟨_, rfl, congrArg Designator.index same⟩
  refine .collectMore steps fun item sameItem => ?_
  exact (further budget last (by omega) (by omega) _ _ _ behind next).mono fun items same => by
    rw [List.map_cons, List.map_cons, sameItem, same]

theorem memberDesignator {given : List Designator} (name : String)
    (further : (designators given).IsRead typedefs more) :
    (designators (.member name :: given)).IsRead typedefs (.mark .dot :: .identifier name :: more) := by
  rintro budget count least enough fileEnd _ rest ⟨token, _, rfl, isSign, word, between, rfl, isName, behind⟩
    next
  simp only [cost_cons] at least
  simp only [List.length_cons] at enough
  obtain ⟨last, rfl, -⟩ := exists_smaller (Nat.succ_le_of_lt enough)
  have steps : Takes typedefs fileEnd (designatorStep (Grammar.conditional budget))
      (token :: word :: between) between fun taken => ∃ item, taken = some (item, true) ∧
        item = .member name :=
    .acceptMark isSign (.expectIdentifier isName (.pure ⟨_, rfl, rfl⟩))
  refine .collectMore steps fun item sameItem => ?_
  exact (further budget last (by omega) (by omega) _ _ _ behind next).mono fun items same => by
    rw [List.map_cons, List.map_cons, sameItem, same]

end Initializers

/-! ## Types with bodies -/

theorem takesTag {α : Type} {tag : Option String} {fileEnd : Location} {tokens between rest : List Token}
    {next : Option String → Parse α} {post : α → Prop}
    (spelled : Spelled (tag.toList.map .identifier) tokens between)
    (noName : ∀ name, next? between ≠ some (.identifier name))
    (takes : Takes typedefs fileEnd (next tag) between rest post) :
    Takes typedefs fileEnd (acceptIdentifier >>= next) tokens rest post := by
  cases tag with
  | none =>
    obtain rfl : tokens = between := spelled
    exact .noIdentifier noName takes
  | some name =>
    obtain ⟨token, behind, rfl, isName, spelled⟩ := spelled
    obtain rfl : behind = between := spelled
    exact .acceptIdentifier isName takes

section Fields

variable {given : Specifiers} {declared : Declarator} {rest : List Field}

theorem fieldForm_reads {width : Option Expr} {wide : List Lexeme} {budget : Nat}
    {fileEnd : Location} {tokens behind : List Token} {base : CType}
    (second : (Phrase.declarator declared).IsRead typedefs more) (nothing : more = [] → declared = {})
    (starts : ∀ kind ∈ more.head?, OpensDeclarator kind)
    (wideRead : match width with
      | none => wide = [] ∧ more ≠ []
      | some width => ∃ front, wide = .mark .colon :: front ∧
        (expr .conditional width).IsRead typedefs front)
    (enough : cost more + cost wide + 2 ≤ budget) (spelled : Spelled (more ++ wide) tokens behind)
    (next : next? behind = some (.mark .semicolon)) (sameBase : base.unplaced = given.base.unplaced) :
    Takes typedefs fileEnd (fieldForm base (Grammar.declarator budget) (Grammar.conditional budget))
      tokens behind fun value =>
        value.unplaced = Field.unplaced ⟨declared.name, declared.typeFrom given.base, width⟩ := by
  obtain ⟨between, ahead, spelled⟩ := spelled.append
  have stops : StopsDeclarator between := by
    intro kind member
    cases width with
    | none =>
      obtain ⟨rfl, -⟩ := wideRead
      obtain rfl : between = behind := spelled
      rw [next] at member
      cases member
      exact ⟨nofun, nofun, nofun, nofun, nofun⟩
    | some width =>
      obtain ⟨front, rfl, -⟩ := wideRead
      rw [spelled.next?_of_head rfl] at member
      cases member
      exact ⟨nofun, nofun, nofun, nofun, nofun⟩
  have reads : Takes typedefs fileEnd (if State.isAtMark ⟨tokens, typedefs, fileEnd⟩ .colon then pure {}
      else Grammar.declarator budget) tokens between fun value => value.unplaced = declared.unplaced := by
    cases more with
    | nil =>
      obtain rfl : tokens = between := ahead
      have isColon : State.isAtMark ⟨tokens, typedefs, fileEnd⟩ .colon = true := by
        cases width with
        | none => exact absurd rfl wideRead.2
        | some width =>
          obtain ⟨front, rfl, -⟩ := wideRead
          exact beq_iff_eq.mpr (spelled.next?_of_head rfl)
      exact .ite isColon (.pure (by rw [nothing rfl]))
    | cons kind more =>
      have notColon : next? tokens ≠ some (.mark .colon) := by
        rw [ahead.next?_of_head rfl]
        rintro same
        cases same
        rcases starts _ rfl with star | ⟨name, isName⟩ | paren | bracket
        · cases star
        · cases isName
        · cases paren
        · cases bracket
      rw [isAtMark_eq_false notColon]
      exact second budget (by omega) _ _ _ ahead stops
  refine .get (.iteBind (reads.bind fun found same => ?_))
  obtain ⟨sameName, -⟩ := Declarator.mk.inj same
  cases width with
  | none =>
    obtain ⟨rfl, -⟩ := wideRead
    obtain rfl : between = behind := spelled
    refine .noMark (by simp [next]) (.pure ?_)
    simp [Field.unplaced, Declarator.unplaced_typeFrom, same, sameBase, sameName]
  | some width =>
    obtain ⟨front, rfl, widthRead⟩ := wideRead
    obtain ⟨colon, between, rfl, isColon, behind⟩ := spelled
    simp only [cost_cons] at enough
    have reads : Takes typedefs fileEnd (some <$> Grammar.conditional budget) between _
        fun found => found.map Expr.unplaced = some width.unplaced :=
      .map ((widthRead budget (by simp only [Place.height]; omega) _ _ _ behind
        (.of_next next rfl)).mono fun found same => congrArg some same)
    refine .acceptMark isColon (reads.bind fun found sameWidth => .pure ?_)
    simp [Field.unplaced, Declarator.unplaced_typeFrom, same, sameBase, sameName, sameWidth]

theorem noFields : (fields []).IsRead typedefs [] := by
  intro budget count _ some fileEnd tokens rest spelled closes
  obtain ⟨last, rfl, -⟩ := exists_smaller (Nat.succ_le_of_lt some)
  obtain rfl : tokens = rest := spelled
  exact .collectStop last (.get (.ite (isAtBrace_of_closes closes _ _) (.pure rfl))) rfl

theorem fieldStep_starts {budget : Nat} {fileEnd : Location} {tokens between behind : List Token}
    {post : Option (List Field × Bool) → Prop} (first : (Phrase.specifiers given).IsRead typedefs lexemes)
    (starts : ∃ kind others, lexemes = kind :: others ∧ OpensSpecifiers typedefs kind)
    (enough : cost lexemes + 2 ≤ budget) (spelled : Spelled lexemes tokens between)
    (stops : StopsSpecifiers between)
    (goesOn : ∀ base : CType, base.unplaced = given.base.unplaced → Takes typedefs fileEnd (do
      if ← acceptMark .semicolon then pure (some ([⟨none, base, none⟩], true))
      else
        let first ← fieldForm base (Grammar.declarator budget) (Grammar.conditional budget)
        let others ← collectWithin (furtherField base (Grammar.declarator budget)
          (Grammar.conditional budget)) budget
        expectMark .semicolon "struct field"
        pure (some (first :: others, true))) between behind post) :
    Takes typedefs fileEnd (fieldStep (Grammar.specifiersOf budget) (Grammar.declarator budget)
      (Grammar.conditional budget) budget) tokens behind post := by
  obtain ⟨kind, others, rfl, opens⟩ := starts
  have next : next? tokens = some kind := spelled.next?_of_head rfl
  have notEnd : kind ≠ .endOfFile := by
    rintro rfl
    rcases opens with ⟨word, same⟩ | ⟨name, -, same⟩ <;> cases same
  refine .get (.iteNot (goesOn_of_next next (opens.ne_mark _) notEnd _ _) (.noMark ?_ ?_))
  · rw [next]
    exact fun same => opens.ne_mark _ (Option.some.inj same)
  · exact .bind (first budget enough _ _ _ spelled stops) fun found ⟨_, _, sameBase⟩ =>
      goesOn found.base sameBase

theorem bareField (first : (Phrase.specifiers given).IsRead typedefs lexemes)
    (starts : ∃ kind others, lexemes = kind :: others ∧ OpensSpecifiers typedefs kind)
    (further : (fields rest).IsRead typedefs more) :
    (fields (⟨none, given.base, none⟩ :: rest)).IsRead typedefs (lexemes ++ .mark .semicolon :: more) := by
  intro budget count least enough fileEnd tokens behind spelled closes
  simp only [cost_append, cost_cons] at least
  simp only [List.length_append, List.length_cons] at enough
  obtain ⟨last, rfl, -⟩ := exists_smaller (Nat.succ_le_of_lt enough)
  obtain ⟨_, ahead, semicolon, between, rfl, isSemicolon, spelled⟩ := spelled.append
  have steps : Takes typedefs fileEnd (fieldStep (Grammar.specifiersOf budget)
      (Grammar.declarator budget) (Grammar.conditional budget) budget) tokens between fun taken =>
        ∃ group, taken = some (group, true) ∧
          group.map Field.unplaced = [Field.unplaced ⟨none, given.base, none⟩] := by
    refine fieldStep_starts first starts (by omega) ahead (stopsSpecifiers_of_mark isSemicolon nofun)
      fun base sameBase => .acceptMark isSemicolon (.pure ⟨_, rfl, ?_⟩)
    simp [Field.unplaced, sameBase]
  refine .collectMore steps fun group sameGroup => ?_
  exact (further budget last (by omega) (by omega) _ _ _ spelled closes).mono fun groups same => by
    simp [sameGroup, same]

theorem declaredField (width : Option Expr) {wide : List Lexeme}
    (first : (Phrase.specifiers given).IsRead typedefs lexemes)
    (starts : ∃ kind others, lexemes = kind :: others ∧ OpensSpecifiers typedefs kind)
    (second : (Phrase.declarator declared).IsRead typedefs more) (nothing : more = [] → declared = {})
    (startsMore : ∀ kind ∈ more.head?, OpensDeclarator kind)
    (wideRead : match width with
      | none => wide = [] ∧ more ≠ []
      | some width => ∃ front, wide = .mark .colon :: front ∧
        (expr .conditional width).IsRead typedefs front)
    (further : (fields rest).IsRead typedefs others) :
    (fields (⟨declared.name, declared.typeFrom given.base, width⟩ :: rest)).IsRead typedefs
      (lexemes ++ (more ++ wide ++ .mark .semicolon :: others)) := by
  intro budget count least enough fileEnd tokens behind spelled closes
  simp only [cost_append, cost_cons] at least
  simp only [List.length_append, List.length_cons] at enough
  obtain ⟨last, rfl, -⟩ := exists_smaller (Nat.succ_le_of_lt enough)
  obtain ⟨between, ahead, spelled⟩ := spelled.append
  obtain ⟨_, middle, semicolon, after, rfl, isSemicolon, spelled⟩ := spelled.append
  obtain ⟨smaller, rfl, -⟩ := exists_smaller (show 0 + 1 ≤ budget by omega)
  have next : ∃ kind, next? between = some kind ∧ (OpensDeclarator kind ∨ kind = .mark .colon) := by
    cases more with
    | cons kind more => exact ⟨kind, middle.next?_of_head rfl, .inl (startsMore kind rfl)⟩
    | nil =>
      cases width with
      | none => exact absurd rfl wideRead.2
      | some width =>
        obtain ⟨front, rfl, -⟩ := wideRead
        exact ⟨_, middle.next?_of_head rfl, .inr rfl⟩
  have stops : StopsSpecifiers between := by
    obtain ⟨kind, next, opens | rfl⟩ := next
    · intro other member
      rw [next] at member
      cases member
      rcases opens with rfl | ⟨name, rfl⟩ | rfl | rfl <;> exact ⟨nofun, nofun⟩
    · intro other member
      rw [next] at member
      cases member
      exact ⟨nofun, nofun⟩
  have noSemicolon : next? between ≠ some (.mark .semicolon) := by
    obtain ⟨kind, next, opens | rfl⟩ := next
    · rw [next]
      rintro same
      cases same
      rcases opens with star | ⟨name, isName⟩ | paren | bracket
      · cases star
      · cases isName
      · cases paren
      · cases bracket
    · rw [next]
      exact nofun
  have steps : Takes typedefs fileEnd (fieldStep (Grammar.specifiersOf (smaller + 1))
      (Grammar.declarator (smaller + 1)) (Grammar.conditional (smaller + 1)) (smaller + 1)) tokens after
      fun taken => ∃ group, taken = some (group, true) ∧ group.map Field.unplaced =
        [Field.unplaced ⟨declared.name, declared.typeFrom given.base, width⟩] := by
    refine fieldStep_starts first starts (by omega) ahead stops fun base sameBase => .noMark noSemicolon ?_
    refine .bind (fieldForm_reads second nothing startsMore wideRead (by omega) middle
      (congrArg some isSemicolon) sameBase) fun found same => ?_
    have noComma : next? (semicolon :: after) ≠ some (.mark .comma) := by simp [next?, isSemicolon]
    have noOthers : Takes typedefs fileEnd (collectWithin (furtherField base
        (Grammar.declarator (smaller + 1)) (Grammar.conditional (smaller + 1))) (smaller + 1))
        (semicolon :: after) (semicolon :: after) (· = []) :=
      .collectStop smaller (.noMark noComma (.pure rfl)) rfl
    exact noOthers.bind fun others none => .expect isSemicolon (.pure ⟨_, rfl, by simp [none, same]⟩)
  refine .collectMore steps fun group sameGroup => ?_
  exact (further (smaller + 1) last (by omega) (by omega) _ _ _ spelled closes).mono
    fun groups same => by simp [sameGroup, same]

theorem recordBody {given : List Field} (kind : RecordKind) (tag : Option String)
    (inner : (fields given).IsRead typedefs lexemes) :
    (bodied (.record kind) (.record kind tag (some given))).IsRead typedefs
      (tag.toList.map .identifier ++ .mark .leftBrace :: (lexemes ++ [.mark .rightBrace])) := by
  intro budget enough fileEnd tokens rest spelled _
  obtain ⟨smaller, rfl, least⟩ := exists_smaller enough
  simp only [cost_append, cost_cons] at least
  obtain ⟨_, ahead, opening, _, rfl, isOpening, spelled⟩ := spelled.append
  obtain ⟨_, middle, closing, _, rfl, isClosing, rfl⟩ := spelled.append
  refine takesTag ahead (by simp [next?, isOpening]) (.acceptMark isOpening ?_)
  refine .bind (inner smaller smaller (by omega) (length_lt_of_cost (by omega)) _ _ _ middle
    (closes_of_brace isClosing)) fun found same => .expect isClosing (.pure ?_)
  simp [CType.unplaced, same]

end Fields

/-! ## Enumerations -/

section Enumerations

variable {constant : Enumerator} {constants : List Enumerator}

theorem plainEnumerator (name : String) : (enumerator ⟨name, none⟩).IsRead typedefs [.identifier name] := by
  rintro budget fileEnd _ rest behind isMore enough ⟨token, between, rfl, isName, rfl⟩ separated
  have noValue : next? between ≠ some (.mark .equal) := by
    rcases separated.next with same | same | same <;> simp [same]
  have next : next? (token :: between) = some (.identifier name) := congrArg some isName
  refine .get (.iteNot (goesOn_of_identifier next _ _) ?_)
  exact .expectIdentifier isName (.noMark noValue (.acceptComma separated (.pure ⟨_, rfl, rfl⟩)))

theorem valuedEnumerator {value : Expr} (name : String)
    (inner : (expr .conditional value).IsRead typedefs lexemes) :
    (enumerator ⟨name, some value⟩).IsRead typedefs (.identifier name :: .mark .equal :: lexemes) := by
  rintro budget fileEnd _ rest behind isMore enough
    ⟨token, _, rfl, isName, sign, between, rfl, isSign, spelled⟩ separated
  simp only [cost_cons] at enough
  have stops : Place.conditional.Stops rest := by
    rcases separated.next with same | same | same <;> exact .of_next same rfl
  have reads : Takes typedefs fileEnd (some <$> Grammar.conditional budget) between rest
      fun found => found.map Expr.unplaced = some value.unplaced :=
    .map ((inner budget (by simp only [Place.height]; omega) _ _ _ spelled stops).mono
      fun found same => congrArg some same)
  have next : next? (token :: sign :: between) = some (.identifier name) := congrArg some isName
  refine .get (.iteNot (goesOn_of_identifier next _ _) ?_)
  refine .expectIdentifier isName (.acceptMark isSign (reads.bind fun found same =>
    .acceptComma separated (.pure ⟨_, rfl, ?_⟩)))
  simp [Enumerator.unplaced, same]

theorem noEnumerators : (enumerators []).IsRead typedefs [] :=
  ReadsItem.nil fun _ _ _ closes => .get (.ite (isAtBrace_of_closes closes _ _) (.pure rfl))

theorem lastEnumerator (one : (enumerator constant).IsRead typedefs lexemes) :
    (enumerators [constant]).IsRead typedefs lexemes := ReadsItem.last one

theorem moreEnumerators (one : (enumerator constant).IsRead typedefs lexemes)
    (further : (enumerators constants).IsRead typedefs more) :
    (enumerators (constant :: constants)).IsRead typedefs (lexemes ++ .mark .comma :: more) :=
  ReadsItem.more one further

theorem enumerationBody (tag : Option String) (inner : (enumerators constants).IsRead typedefs lexemes) :
    (bodied .enumeration (.enumeration tag (some constants))).IsRead typedefs
      (tag.toList.map .identifier ++ .mark .leftBrace :: (lexemes ++ [.mark .rightBrace])) := by
  intro budget enough fileEnd tokens rest spelled _
  obtain ⟨smaller, rfl, least⟩ := exists_smaller enough
  simp only [cost_append, cost_cons] at least
  obtain ⟨_, ahead, opening, _, rfl, isOpening, spelled⟩ := spelled.append
  obtain ⟨_, middle, closing, _, rfl, isClosing, rfl⟩ := spelled.append
  refine takesTag ahead (by simp [next?, isOpening]) (.acceptMark isOpening ?_)
  refine .bind (inner smaller smaller (by omega) (length_lt_of_cost (by omega)) _ _ _ middle
    (closes_of_brace isClosing)) fun found same => .expect isClosing (.pure ?_)
  simp [CType.unplaced, same]

end Enumerations

end Phrase.IsRead

end InlineMacro.Parser
