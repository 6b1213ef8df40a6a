import InlineMacro.Proofs.Parser.Reading

/-!
# Types and declarators are read

The part of the grammar for specifiers, declarators and the types that they make up.
-/

set_option autoImplicit false

namespace InlineMacro.Parser

/-! ## Specifiers without places -/

namespace SpecifierWords

def mapNamed (change : CType → CType) (read : SpecifierWords) : SpecifierWords :=
  { read with named := read.named.map change }

variable {change : CType → CType}

theorem hasType_mapNamed (read : SpecifierWords) : (read.mapNamed change).hasType = read.hasType := by
  simp [hasType, mapNamed]

theorem addKeyword?_mapNamed (read : SpecifierWords) (word : Keyword) :
    (read.mapNamed change).addKeyword? word = (read.addKeyword? word).map (mapNamed change) := by
  unfold addKeyword?
  split
  · rfl
  · rw [show (read.mapNamed change).qualifiers = read.qualifiers from rfl,
      show (read.mapNamed change).words = read.words from rfl]
    split
    · rfl
    · split
      · rfl
      · split <;> rfl

theorem base_mapNamed (read : SpecifierWords) (basic : ∀ kind, change (.basic kind) = .basic kind)
    (qualified : ∀ given type, change (.qualified given type) = .qualified given (change type)) :
    (read.mapNamed change).base = change read.base := by
  unfold base
  rw [show (read.mapNamed change).qualifiers = read.qualifiers from rfl,
    show (read.mapNamed change).words = read.words from rfl]
  cases named : read.named <;>
    simp only [mapNamed, named, Option.map_none, Option.map_some, Option.getD_none, Option.getD_some] <;>
    split <;> simp only [basic, qualified]

theorem base_unplaced (read : SpecifierWords) : read.unplaced.base = read.base.unplaced :=
  read.base_mapNamed (fun _ => rfl) fun _ _ => rfl

variable {read other : SpecifierWords}

theorem hasType_eq (same : read.unplaced = other.unplaced) : read.hasType = other.hasType := by
  rw [← read.hasType_mapNamed, ← other.hasType_mapNamed]
  exact congrArg hasType same

end SpecifierWords

/-! ## What stands behind the parts -/

section Starts

variable {typedefs : List String} {lexemes : List Lexeme}

theorem OpensSpecifiers.ne_mark {kind : Lexeme} (opens : OpensSpecifiers typedefs kind) (sign : Mark) :
    kind ≠ .mark sign := by
  rintro rfl
  rcases opens with ⟨word, same⟩ | ⟨name, -, same⟩ <;> cases same

theorem Derives.startsPointers {layers : List Derivation}
    (derives : Derives typedefs (.pointers layers) lexemes) :
    lexemes = [] ∨ lexemes.head? = some (.mark .star) := by
  cases derives with
  | noPointers => exact .inl rfl
  | pointer => exact .inr rfl

def OpensCore (kind : Lexeme) : Prop :=
  (∃ name, kind = .identifier name) ∨ kind = .mark .leftParen ∨ kind = .mark .leftBracket

variable {declared : Declarator}

theorem Derives.startsCore {layers : List Derivation} {more : List Lexeme}
    (derives : Derives typedefs (.core declared) lexemes) (further : Derives typedefs (.layers layers) more) :
    lexemes ++ more = [] ∨ ∃ kind, (lexemes ++ more).head? = some kind ∧ OpensCore kind := by
  cases derives with
  | name => exact .inr ⟨_, rfl, .inl ⟨_, rfl⟩⟩
  | nested => exact .inr ⟨_, rfl, .inr (.inl rfl)⟩
  | noName =>
    rcases further.startsLayers with none | bracket | ⟨second, others, same, -⟩
    · exact .inl none
    · exact .inr ⟨_, bracket, .inr (.inr rfl)⟩
    · exact .inr ⟨_, congrArg List.head? same, .inr (.inl rfl)⟩

def OpensDeclarator (kind : Lexeme) : Prop := kind = .mark .star ∨ OpensCore kind

theorem Derives.opensDeclarator (derives : Derives typedefs (.declarator declared) lexemes) :
    lexemes = [] ∨ ∃ kind, lexemes.head? = some kind ∧ OpensDeclarator kind := by
  cases derives with
  | declarator pointers core layers =>
    rcases pointers.startsPointers with rfl | star
    · exact (core.startsCore layers).imp_right fun ⟨kind, head, opens⟩ => ⟨kind, head, .inr opens⟩
    · exact .inr ⟨.mark .star, by rw [List.head?_append, star]; rfl, .inl rfl⟩

theorem Derives.opensHead (derives : Derives typedefs (.declarator declared) lexemes) :
    ∀ kind ∈ lexemes.head?, OpensDeclarator kind := by
  intro other member
  rcases derives.opensDeclarator with rfl | ⟨kind, head, opens⟩
  · cases member
  · rw [head] at member
    cases member
    exact opens

theorem Derives.startsDeclarator (derives : Derives typedefs (.declarator declared) lexemes) :
    lexemes = [] ∨ ∃ kind, lexemes.head? = some kind ∧ (∀ word, kind ≠ .keyword word) ∧
      kind ≠ .mark .leftBrace := by
  refine derives.opensDeclarator.imp_right fun ⟨kind, head, opens⟩ => ⟨kind, head, ?_⟩
  rcases opens with rfl | ⟨name, rfl⟩ | rfl | rfl <;> exact ⟨nofun, nofun⟩

theorem Derives.declarator_nil (derives : Derives typedefs (.declarator declared) []) : declared = {} := by
  generalize none : ([] : List Lexeme) = given at derives
  cases derives with
  | declarator pointers core layers =>
    obtain ⟨rfl, nothing⟩ := List.append_eq_nil_iff.mp none.symm
    obtain ⟨rfl, rfl⟩ := List.append_eq_nil_iff.mp nothing
    cases pointers
    cases core
    cases layers
    rfl

end Starts

namespace Phrase.IsRead

variable {typedefs : List String} {lexemes more others : List Lexeme} {rest : List Token}

theorem specifierStops {between : List Token} (behind : Spelled more between rest)
    (starts : more = [] ∨ ∃ kind, more.head? = some kind ∧ (∀ word, kind ≠ .keyword word) ∧
      kind ≠ .mark .leftBrace) (stops : StopsSpecifiers rest) : StopsSpecifiers between := by
  rcases starts with rfl | ⟨kind, head, opens⟩
  · obtain rfl : between = rest := behind
    exact stops
  · intro other member
    rw [behind.next?_of_head head] at member
    cases member
    exact opens

theorem typeName {given : Specifiers} {layers : List Derivation}
    (first : (specifiers given).IsRead typedefs lexemes) (noStorage : given.storage = none)
    (declared : (declarator ⟨none, layers⟩).IsRead typedefs more)
    (starts : more = [] ∨ ∃ kind, more.head? = some kind ∧ (∀ word, kind ≠ .keyword word) ∧
      kind ≠ .mark .leftBrace) :
    (typeName (layers.foldl Derivation.apply given.base)).IsRead typedefs (lexemes ++ more) := by
  intro budget enough fileEnd tokens rest spelled ⟨stopsWords, stops⟩
  obtain ⟨inner, rfl, least⟩ := exists_smaller enough
  simp only [cost_append] at least
  obtain ⟨between, ahead, behind⟩ := spelled.append
  refine .location fun start => .bind (first inner (by omega) _ _ _ ahead
    (specifierStops behind starts stopsWords)) fun read ⟨sameStorage, _, sameBase⟩ => ?_
  rw [sameStorage, noStorage]
  refine .bind (declared inner (by omega) _ _ _ behind stops) fun ⟨name, derivations⟩ same => ?_
  obtain ⟨rfl, sameLayers⟩ := Declarator.mk.inj same
  refine .pure ?_
  rw [Declarator.unplaced_typeFrom, sameBase, same]
  exact (Derivation.unplaced_foldl given.base layers).symm

variable {result : SpecifierWords}

theorem specifiers (read : (words {} result).IsRead typedefs lexemes)
    (hasType : result.hasType) (some : result.isEmpty = false) :
    (specifiers ⟨result.storage, result.isInline, result.base⟩).IsRead typedefs lexemes := by
  intro budget enough fileEnd tokens rest spelled stops
  obtain ⟨inner, rfl, least⟩ := exists_smaller enough
  refine .location fun start => .bind (read inner inner {} hasType (by omega)
    (length_lt_of_cost (by omega)) rfl _ _ _ spelled stops) fun found same => ?_
  obtain ⟨sameStorage, sameInline, -, -, -, sameEmpty⟩ := SpecifierWords.mk.inj same
  rw [sameEmpty, some]
  refine .pure ⟨sameStorage, sameInline, ?_⟩
  rw [← SpecifierWords.base_unplaced, same, SpecifierWords.base_unplaced]

theorem noWords {read : SpecifierWords} : (words read read).IsRead typedefs [] := by
  intro budget count words hasType _ some same fileEnd tokens rest spelled stops
  obtain ⟨last, rfl, -⟩ := exists_smaller (Nat.succ_le_of_lt some)
  obtain rfl : tokens = rest := spelled
  have isGiven : words.hasType = true := (SpecifierWords.hasType_eq same).trans hasType
  refine Leads.iterateStop last (.get ?_) same
  split
  · next word next => exact absurd rfl ((stops _ next).1 word)
  · simp only [isGiven, Bool.not_true, Bool.false_and, Bool.false_eq_true, if_false]
    exact .pure rfl
  · exact .pure rfl

theorem word {read next : SpecifierWords} {word : Keyword}
    (notBodied : bodiedTypeOfKeyword? word = none) (adds : read.addKeyword? word = some next)
    (fits : next.words.fits) (further : (words next result).IsRead typedefs more) :
    (words read result).IsRead typedefs (.keyword word :: more) := by
  rintro budget count words hasType least enough same fileEnd _ rest ⟨token, tokens, rfl, isWord, behind⟩
    stops
  simp only [cost_cons] at least
  simp only [List.length_cons] at enough
  obtain ⟨last, rfl, -⟩ := exists_smaller (Nat.succ_le_of_lt enough)
  obtain ⟨found, foundAdds, sameFound⟩ : ∃ found, words.addKeyword? word = some found ∧
      found.unplaced = next.unplaced := by
    have both := congrArg (SpecifierWords.addKeyword? · word) same
    simp only [show ∀ read, SpecifierWords.unplaced read = read.mapNamed CType.unplaced from fun _ => rfl,
      SpecifierWords.addKeyword?_mapNamed, adds, Option.map_some] at both
    exact Option.map_eq_some_iff.mp both
  have foundFits : found.words.fits := by
    obtain ⟨-, -, -, sameWords, -⟩ := SpecifierWords.mk.inj sameFound
    rwa [sameWords]
  have steps : Takes typedefs fileEnd (specifierStep (Grammar.bodied budget) words) (token :: tokens)
      tokens fun taken => ∃ read, taken = some read ∧ SpecifierWords.unplaced read = next.unplaced := by
    refine .get ?_
    simp only [State.lexeme?, List.head?_cons, Option.map_some, isWord, notBodied, foundAdds, foundFits,
      if_true]
    exact .skip (.pure ⟨_, rfl, sameFound⟩)
  exact .iterateMore steps fun read sameRead =>
    further budget last read hasType (by omega) (by omega) sameRead _ _ _ behind stops

theorem typedefName {read : SpecifierWords} {name : String} (noType : read.hasType = false)
    (isType : name ∈ typedefs)
    (further : (words { read with named := some (.named name), isEmpty := false } result).IsRead typedefs
      more) : (words read result).IsRead typedefs (.identifier name :: more) := by
  rintro budget count words hasType least enough same fileEnd _ rest ⟨token, tokens, rfl, isName, behind⟩
    stops
  simp only [cost_cons] at least
  simp only [List.length_cons] at enough
  obtain ⟨last, rfl, -⟩ := exists_smaller (Nat.succ_le_of_lt enough)
  have notGiven : words.hasType = false := (SpecifierWords.hasType_eq same).trans noType
  have isTypedef : State.isTypedef ⟨token :: tokens, typedefs, fileEnd⟩ name = true :=
    List.contains_iff_mem.mpr isType
  have steps : Takes typedefs fileEnd (specifierStep (Grammar.bodied budget) words) (token :: tokens)
      tokens fun taken => ∃ given, taken = some given ∧ SpecifierWords.unplaced given =
        SpecifierWords.unplaced { read with named := some (.named name), isEmpty := false } := by
    refine .get ?_
    simp only [State.lexeme?, List.head?_cons, Option.map_some, isName, notGiven, isTypedef,
      Bool.not_false, Bool.and_self, if_true]
    refine .skip (.pure ⟨_, rfl, ?_⟩)
    exact congrArg (fun given : SpecifierWords =>
      { given with named := some (.named name), isEmpty := false }) same
  exact .iterateMore steps fun given sameGiven =>
    further budget last given hasType (by omega) (by omega) sameGiven _ _ _ behind stops

theorem bodiedWord {read : SpecifierWords} {word : Keyword} {kind : BodiedType} {type : CType}
    (isBodied : bodiedTypeOfKeyword? word = some kind) (noType : read.hasType = false)
    (body : (bodied kind type).IsRead typedefs lexemes)
    (further : (words { read with named := some type, isEmpty := false } result).IsRead typedefs more)
    (starts : more = [] ∨ ∃ first others, more = first :: others ∧ OpensSpecifiers typedefs first) :
    (words read result).IsRead typedefs (.keyword word :: (lexemes ++ more)) := by
  rintro budget count words hasType least enough same fileEnd _ rest ⟨token, tokens, rfl, isWord, spelled⟩
    stops
  simp only [cost_append, cost_cons] at least
  simp only [List.length_cons, List.length_append] at enough
  obtain ⟨last, rfl, -⟩ := exists_smaller (Nat.succ_le_of_lt enough)
  obtain ⟨between, ahead, behind⟩ := spelled.append
  have notGiven : words.hasType = false := (SpecifierWords.hasType_eq same).trans noType
  have noBrace : next? between ≠ some (.mark .leftBrace) := by
    rcases starts with rfl | ⟨first, others, rfl, opens⟩
    · obtain rfl : between = rest := behind
      exact fun next => (stops _ next).2 rfl
    · rw [behind.next?_of_head rfl]
      exact fun same => opens.ne_mark .leftBrace (Option.some.inj same)
  have steps : Takes typedefs fileEnd (specifierStep (Grammar.bodied budget) words) (token :: tokens)
      between fun taken => ∃ given, taken = some given ∧ SpecifierWords.unplaced given =
        SpecifierWords.unplaced { read with named := some type, isEmpty := false } := by
    refine .get ?_
    simp only [State.lexeme?, List.head?_cons, Option.map_some, isWord, isBodied, notGiven,
      Bool.false_eq_true, if_false]
    refine .skip (.bind (body budget (by omega) _ _ _ ahead noBrace) fun found sameType =>
      .pure ⟨_, rfl, ?_⟩)
    have sameRest := congrArg (fun given : SpecifierWords =>
      { given with named := some type.unplaced, isEmpty := false }) same
    simpa [SpecifierWords.unplaced, sameType] using sameRest
  exact .iterateMore steps fun given sameGiven =>
    further budget last given hasType (by omega) (by omega) sameGiven _ _ _ behind stops

theorem recordTag (kind : RecordKind) (tag : String) :
    (bodied (.record kind) (.record kind (some tag) none)).IsRead typedefs [.identifier tag] := by
  rintro budget enough fileEnd _ rest ⟨token, tokens, rfl, isTag, rfl⟩ noBody
  obtain ⟨inner, rfl, -⟩ := exists_smaller enough
  exact .acceptIdentifier isTag (.noMark noBody (.pure rfl))

theorem enumerationTag (tag : String) :
    (bodied .enumeration (.enumeration (some tag) none)).IsRead typedefs [.identifier tag] := by
  rintro budget enough fileEnd _ rest ⟨token, tokens, rfl, isTag, rfl⟩ noBody
  obtain ⟨inner, rfl, -⟩ := exists_smaller enough
  exact .acceptIdentifier isTag (.noMark noBody (.pure rfl))

/-! ### Declarators -/

variable {words : List Keyword}

theorem qualifierRun_eq {given found : Qualifiers} {tokens : List Token}
    (spelled : Spelled (words.map .keyword) tokens rest)
    (adds : words.foldlM addQualifier? given = some found)
    (stops : ∀ word, next? rest = some (.keyword word) → ∀ given, addQualifier? given word = none) :
    qualifierRun given tokens = (found, rest) := by
  induction words generalizing given tokens with
  | nil =>
    obtain rfl : tokens = rest := spelled
    cases adds
    cases tokens with
    | nil => rfl
    | cons token tokens =>
      unfold qualifierRun
      split
      · next word same => rw [stops word (congrArg some same)]
      · rfl
  | cons word words ih =>
    obtain ⟨token, tokens, rfl, isWord, spelled⟩ := spelled
    rw [List.foldlM_cons] at adds
    obtain ⟨between, addsOne, addsMore⟩ := Option.bind_eq_some_iff.mp adds
    rw [qualifierRun, isWord]
    simp only [addsOne]
    exact ih spelled addsMore

theorem takesQualifiers {found : Qualifiers} {tokens : List Token}
    {fileEnd : Location} (spelled : Spelled (words.map .keyword) tokens rest)
    (adds : words.foldlM addQualifier? {} = some found)
    (stops : ∀ word, next? rest = some (.keyword word) → ∀ given, addQualifier? given word = none) :
    Takes typedefs fileEnd Parser.qualifiers tokens rest (· = found) := by
  refine .get ?_
  rw [qualifierRun_eq spelled adds stops]
  exact .setTokens (.pure rfl)

theorem noPointers : (pointers []).IsRead typedefs [] := by
  intro count some fileEnd tokens rest spelled stops
  obtain ⟨last, rfl, -⟩ := exists_smaller (Nat.succ_le_of_lt some)
  obtain rfl : tokens = rest := spelled
  have noStar : next? tokens ≠ Option.some (.mark .star) := fun next => (stops _ next).2 rfl
  exact Leads.collectStop last (.noMark noStar (.pure rfl)) rfl

theorem pointer {qualifiers : Qualifiers} {layers : List Derivation}
    (adds : words.foldlM addQualifier? {} = some qualifiers)
    (further : (pointers layers).IsRead typedefs more)
    (starts : more = [] ∨ more.head? = some (.mark .star)) :
    (pointers (.pointer qualifiers :: layers)).IsRead typedefs
      (.mark .star :: (words.map .keyword ++ more)) := by
  rintro count enough fileEnd _ rest ⟨token, tokens, rfl, isStar, spelled⟩ stops
  simp only [List.length_cons, List.length_append] at enough
  obtain ⟨last, rfl, -⟩ := exists_smaller (Nat.succ_le_of_lt enough)
  obtain ⟨between, ahead, behind⟩ := spelled.append
  have noWord : ∀ word, next? between = some (.keyword word) →
      ∀ given, addQualifier? given word = none := by
    intro word next
    rcases starts with rfl | star
    · obtain rfl : between = rest := behind
      exact absurd rfl ((stops _ next).1 word)
    · rw [behind.next?_of_head star] at next
      cases next
  have steps : Takes typedefs fileEnd pointerStep (token :: tokens) between fun taken =>
      ∃ layer, taken = some (layer, true) ∧ layer = .pointer qualifiers :=
    .acceptMark isStar ((takesQualifiers ahead adds noWord).bind fun found same =>
      .pure ⟨_, rfl, congrArg Derivation.pointer same⟩)
  refine .collectMore steps fun layer sameLayer => ?_
  exact (further last (by omega) _ _ _ behind stops).mono fun found same => by rw [sameLayer, same]

theorem noName : (core {}).IsRead typedefs [] := by
  intro budget _ fileEnd tokens rest spelled ⟨noName, noNested⟩
  obtain rfl : tokens = rest := spelled
  refine .get ?_
  rw [noNested fileEnd]
  exact .noIdentifier noName (.pure rfl)

theorem name (name : String) : (core { name := some name }).IsRead typedefs [.identifier name] := by
  rintro budget _ fileEnd _ rest ⟨token, tokens, rfl, isName, rfl⟩ -
  have notNested : State.isAtNestedDeclarator ⟨token :: tokens, typedefs, fileEnd⟩ = false := by
    have notAt : next? (token :: tokens) ≠ some (.mark .leftParen) := by simp [next?, isName]
    rw [State.isAtNestedDeclarator, isAtMark_eq_false notAt, Bool.false_and]
  refine .get ?_
  rw [notNested]
  exact .acceptIdentifier isName (.pure rfl)

theorem nested {declared : Declarator}
    (inner : (declarator declared).IsRead typedefs (.mark .star :: lexemes)) : (core declared).IsRead typedefs
      (.mark .leftParen :: .mark .star :: (lexemes ++ [.mark .rightParen])) := by
  rintro budget enough fileEnd _ rest ⟨token, _, rfl, isParen, star, tokens, rfl, isStar, spelled⟩ -
  simp only [cost_append, cost_cons] at enough
  obtain ⟨_, ahead, closing, _, rfl, isClosing, rfl⟩ := spelled.append
  have isNested : State.isAtNestedDeclarator ⟨token :: star :: tokens, typedefs, fileEnd⟩ = true := by
    simp [State.isAtNestedDeclarator, State.isAtMark, State.lexeme?, State.secondLexeme?, isParen, isStar]
  refine .get ?_
  rw [isNested]
  refine .skip (.bind (inner budget (by simp only [cost_cons]; omega) _ _ _
    ⟨star, tokens, rfl, isStar, ahead⟩ (stops_of_paren isClosing).2) fun found same =>
      .expect isClosing (.pure same))

theorem noLayers : (layers []).IsRead typedefs [] := by
  intro budget count _ some fileEnd tokens rest spelled stops
  obtain ⟨last, rfl, -⟩ := exists_smaller (Nat.succ_le_of_lt some)
  obtain rfl : tokens = rest := spelled
  have noBracket : next? tokens ≠ Option.some (.mark .leftBracket) :=
    fun next => (stops _ next).2.2.2.2 rfl
  have noParen : next? tokens ≠ Option.some (.mark .leftParen) := fun next => (stops _ next).2.2.2.1 rfl
  exact Leads.collectStop last (.noMark noBracket (.noMark noParen (.pure rfl))) rfl

variable {given : List Derivation}

theorem array {size : Option Expr}
    (inner : (Phrase.size size).IsRead typedefs lexemes) (further : (layers given).IsRead typedefs more) :
    (layers (.array size :: given)).IsRead typedefs
      (.mark .leftBracket :: (lexemes ++ .mark .rightBracket :: more)) := by
  rintro budget count least enough fileEnd _ rest ⟨token, tokens, rfl, isBracket, spelled⟩ stops
  rw [← List.singleton_append, ← List.append_assoc] at spelled
  obtain ⟨between, ahead, behind⟩ := spelled.append
  simp only [cost_append, cost_cons] at least
  simp only [List.length_cons, List.length_append] at enough
  obtain ⟨last, rfl, -⟩ := exists_smaller (Nat.succ_le_of_lt enough)
  have steps : Takes typedefs fileEnd (derivationStep (Grammar.assignment budget)
      (Grammar.parameters budget)) (token :: tokens) between fun taken =>
        ∃ layer, taken = some (layer, true) ∧ Derivation.unplaced layer = (Derivation.array size).unplaced :=
    .acceptMark isBracket (.bind (inner budget (by omega) _ _ _ ahead trivial) fun found same =>
      .pure ⟨_, rfl, congrArg Derivation.array same⟩)
  refine .collectMore steps fun layer sameLayer => ?_
  exact (further budget last (by omega) (by omega) _ _ _ behind stops).mono fun found same => by
    rw [List.map_cons, List.map_cons, sameLayer, same]

theorem functionNone (further : (layers given).IsRead typedefs more) :
    (layers (.function [] false :: given)).IsRead typedefs
      (.mark .leftParen :: .mark .rightParen :: more) := by
  rintro budget count least enough fileEnd _ rest
    ⟨token, _, rfl, isParen, closing, between, rfl, isClosing, behind⟩ stops
  simp only [cost_cons] at least
  simp only [List.length_cons] at enough
  obtain ⟨last, rfl, -⟩ := exists_smaller (Nat.succ_le_of_lt enough)
  obtain ⟨inner, rfl, -⟩ := exists_smaller (show 0 + 1 ≤ budget by omega)
  have noBracket : next? (token :: closing :: between) ≠ some (.mark .leftBracket) := by
    simp [next?, isParen]
  have none : Takes typedefs fileEnd (Grammar.parameters (inner + 1)) (closing :: between) between
      (· = .function [] false) := .acceptMark isClosing (.pure rfl)
  have steps : Takes typedefs fileEnd (derivationStep (Grammar.assignment (inner + 1))
      (Grammar.parameters (inner + 1))) (token :: closing :: between) between fun taken =>
        ∃ layer, taken = some (layer, true) ∧ layer = .function [] false :=
    .noMark noBracket (.acceptMark isParen (none.bind fun found same => .pure ⟨_, rfl, same⟩))
  refine .collectMore steps fun layer sameLayer => ?_
  exact (further (inner + 1) last (by omega) (by omega) _ _ _ behind stops).mono fun found same => by
    rw [List.map_cons, List.map_cons, sameLayer, same]

theorem function {entries : List Parameter} {isVariadic : Bool}
    (inner : (parameters entries isVariadic).IsRead typedefs lexemes)
    (starts : ∃ first others, lexemes = first :: others ∧
      (first = .mark .ellipsis ∨ OpensSpecifiers typedefs first))
    (further : (layers given).IsRead typedefs more) :
    (layers (.function entries isVariadic :: given)).IsRead typedefs
      (.mark .leftParen :: (lexemes ++ .mark .rightParen :: more)) := by
  rintro budget count least enough fileEnd _ rest ⟨token, tokens, rfl, isParen, spelled⟩ stops
  obtain ⟨_, ahead, closing, between, rfl, isClosing, behind⟩ := spelled.append
  simp only [cost_append, cost_cons] at least
  simp only [List.length_cons, List.length_append] at enough
  obtain ⟨last, rfl, -⟩ := exists_smaller (Nat.succ_le_of_lt enough)
  obtain ⟨smaller, rfl, -⟩ := exists_smaller (show 0 + 1 ≤ budget by omega)
  have noBracket : next? (token :: tokens) ≠ some (.mark .leftBracket) := by simp [next?, isParen]
  obtain ⟨first, others, rfl, opens⟩ := starts
  have isFirst : next? tokens = some first := ahead.next?_of_head rfl
  have notClosing : next? tokens ≠ some (.mark .rightParen) := by
    rw [isFirst]
    rintro same
    cases same
    rcases opens with same | opens
    · cases same
    · exact opens.ne_mark _ rfl
  have list : Takes typedefs fileEnd (collectWithin (parameterStep (Grammar.specifiersOf smaller)
      (Grammar.declarator smaller)) smaller >>= fun found => do
        expectMark .rightParen "parameter list"
        pure (Derivation.function (found.filterMap id) (found.any Option.isNone))) tokens between
      fun layer => layer.unplaced = (Derivation.function entries isVariadic).unplaced :=
    .bind (inner smaller smaller (by omega) (length_lt_of_cost (by omega)) _ _ _ ahead
      ⟨.inl rfl, congrArg some isClosing⟩) fun found same => .expect isClosing
        (.pure (by rw [Derivation.unplaced, same.1, same.2, Derivation.unplaced]))
  have reads : Takes typedefs fileEnd (Grammar.parameters (smaller + 1)) tokens between
      fun layer => layer.unplaced = (Derivation.function entries isVariadic).unplaced := by
    refine .noMark notClosing (.get ?_)
    have ahead? : State.lexeme? ⟨tokens, typedefs, fileEnd⟩ = some first := isFirst
    rw [ahead?]
    rcases opens with rfl | ⟨word, rfl⟩ | ⟨name, isType, rfl⟩
    · exact list
    · exact list
    · have isTypedef : State.isTypedef ⟨tokens, typedefs, fileEnd⟩ name = true :=
        List.contains_iff_mem.mpr isType
      simp only [isTypedef, Bool.not_true, Bool.false_eq_true, if_false]
      exact list
  have steps : Takes typedefs fileEnd (derivationStep (Grammar.assignment (smaller + 1))
      (Grammar.parameters (smaller + 1))) (token :: tokens) between fun taken =>
        ∃ layer, taken = some (layer, true) ∧
          layer.unplaced = (Derivation.function entries isVariadic).unplaced :=
    .noMark noBracket (.acceptMark isParen (reads.bind fun found same => .pure ⟨_, rfl, same⟩))
  refine .collectMore steps fun layer sameLayer => ?_
  exact (further (smaller + 1) last (by omega) (by omega) _ _ _ behind stops).mono fun found same => by
    rw [List.map_cons, List.map_cons, sameLayer, same]

theorem noSize : (size none).IsRead typedefs [] := by
  rintro budget enough fileEnd _ rest ⟨token, tokens, rfl, isBracket, rfl⟩ -
  have noWord : ∀ word, next? (token :: tokens) ≠ some (.keyword word) := by simp [next?, isBracket]
  have isAt : State.isAtMark ⟨token :: tokens, typedefs, fileEnd⟩ .rightBracket := by
    simp [State.isAtMark, State.lexeme?, isBracket]
  have noStatic : Takes typedefs fileEnd (acceptKeyword .kwStatic) (token :: tokens) (token :: tokens)
      fun _ => True := by
    rw [← bind_pure (acceptKeyword .kwStatic)]
    exact .noKeyword (noWord .kwStatic) (.pure trivial)
  have noQualifiers : Takes typedefs fileEnd Parser.qualifiers (token :: tokens) (token :: tokens) (· = {}) :=
    takesQualifiers (show Spelled ([].map .keyword) (token :: tokens) (token :: tokens) from rfl) rfl
      fun word next => absurd next (noWord word)
  refine .discard noStatic (.discard noQualifiers (.get ?_))
  rw [isAt]
  exact .expect isBracket (.pure rfl)

theorem someSize {given : Expr} (value : (expr .assignment given).IsRead typedefs lexemes)
    (starts : StartsExpr typedefs .assignment lexemes) : (size (some given)).IsRead typedefs lexemes := by
  intro budget enough fileEnd tokens rest spelled _
  obtain ⟨_, ahead, closing, rest, rfl, isClosing, rfl⟩ := spelled.append
  have noWord : ∀ word, next? tokens = some (.keyword word) →
      ∀ found, addQualifier? found word = none := by
    intro word next found
    by_cases isSizeof : word = .kwSizeof
    · rw [isSizeof]
      rfl
    · refine absurd next (starts.next?_ne ahead ?_)
      cases word <;> first | rfl | exact absurd rfl isSizeof
  have noStop : State.isAtMark ⟨tokens, typedefs, fileEnd⟩ .rightBracket = false :=
    isAtMark_eq_false (starts.next?_ne ahead rfl) _ _
  have noStar : (State.isAtMark ⟨tokens, typedefs, fileEnd⟩ .star &&
      State.secondLexeme? ⟨tokens, typedefs, fileEnd⟩ == some (.mark .rightBracket)) = false := by
    obtain ⟨first, others, rfl, -, second⟩ := starts
    obtain ⟨token, tokens, rfl, isFirst, behind⟩ := ahead
    by_cases isStar : first = .mark .star
    · obtain ⟨kind, head, opens⟩ := second .star isStar nofun
      have isSecond : State.secondLexeme? ⟨token :: tokens, typedefs, fileEnd⟩ = some kind :=
        behind.next?_of_head head
      have notClosing : kind ≠ .mark .rightBracket := by
        rintro rfl
        cases opens
      simp [isSecond, notClosing]
    · have notStar : State.isAtMark ⟨token :: tokens, typedefs, fileEnd⟩ .star = false := by
        simp [State.isAtMark, State.lexeme?, isFirst, isStar]
      rw [notStar, Bool.false_and]
  have noStatic : Takes typedefs fileEnd (acceptKeyword .kwStatic) tokens tokens fun _ => True := by
    rw [← bind_pure (acceptKeyword .kwStatic)]
    exact .noKeyword (starts.next?_ne ahead rfl) (.pure trivial)
  have noQualifiers : Takes typedefs fileEnd Parser.qualifiers tokens tokens (· = {}) :=
    takesQualifiers (show Spelled ([].map .keyword) tokens tokens from rfl) rfl noWord
  refine .discard noStatic (.discard noQualifiers (.get ?_))
  rw [noStop, noStar]
  have size : Takes typedefs fileEnd (some <$> Grammar.assignment budget) tokens (closing :: rest)
      fun value => value.map Expr.unplaced = some given.unplaced := .map
    ((value budget (by simp only [Place.height]; omega) _ _ _ ahead
      (.of_next (congrArg some isClosing) rfl)).mono fun found same => congrArg some same)
  exact size.bind fun found same => .expect isClosing (.pure same)

theorem declarator {inner : Declarator} {after : List Derivation}
    (stars : (pointers given).IsRead typedefs lexemes) (middle : (core inner).IsRead typedefs more)
    (behindName : (layers after).IsRead typedefs others)
    (startsCore : more ++ others = [] ∨ ∃ kind, (more ++ others).head? = some kind ∧ OpensCore kind)
    (startsLayers : others = [] ∨ others.head? = some (.mark .leftBracket) ∨
      ∃ second further, others = .mark .leftParen :: second :: further ∧
        (second = .mark .rightParen ∨ second = .mark .ellipsis ∨ OpensSpecifiers typedefs second)) :
    (declarator ⟨inner.name, given ++ after.reverse ++ inner.derivations⟩).IsRead typedefs
      (lexemes ++ (more ++ others)) := by
  intro budget enough fileEnd tokens rest spelled stops
  obtain ⟨smaller, rfl, least⟩ := exists_smaller enough
  simp only [cost_append] at least
  obtain ⟨first, ahead, spelled⟩ := spelled.append
  obtain ⟨second, between, behind⟩ := spelled.append
  have starsStop : ∀ kind ∈ next? first, (∀ word, kind ≠ .keyword word) ∧ kind ≠ .mark .star := by
    intro kind next
    rcases startsCore with none | ⟨other, head, opens⟩
    · obtain ⟨rfl, rfl⟩ := List.append_eq_nil_iff.mp none
      obtain rfl : first = rest := between.trans behind
      exact ⟨(stops kind next).1, (stops kind next).2.2.1⟩
    · rw [spelled.next?_of_head head] at next
      cases next
      rcases opens with ⟨name, rfl⟩ | rfl | rfl <;> exact ⟨nofun, nofun⟩
  have coreStops : StopsCore typedefs second := by
    rcases startsLayers with rfl | bracket | ⟨kind, further, rfl, opens⟩
    · obtain rfl : second = rest := behind
      refine ⟨fun name next => (stops _ next).2.1 name rfl, fun fileEnd => ?_⟩
      rw [State.isAtNestedDeclarator, isAtMark_eq_false fun next => (stops _ next).2.2.2.1 rfl,
        Bool.false_and]
    · have next := behind.next?_of_head bracket
      refine ⟨fun name isName => by simp [next] at isName, fun fileEnd => ?_⟩
      rw [State.isAtNestedDeclarator, isAtMark_eq_false (by simp [next]), Bool.false_and]
    · obtain ⟨paren, _, rfl, isParen, inside, behindInside, rfl, isInside, -⟩ := behind
      refine ⟨fun name isName => by simp [next?, isParen] at isName, fun fileEnd => ?_⟩
      have ahead? : State.secondLexeme? ⟨paren :: inside :: behindInside, typedefs, fileEnd⟩ = some kind :=
        congrArg some isInside
      rw [State.isAtNestedDeclarator, ahead?]
      rcases opens with rfl | rfl | ⟨word, rfl⟩ | ⟨name, isType, rfl⟩
      · exact Bool.and_false _
      · exact Bool.and_false _
      · exact Bool.and_false _
      · have isTypedef : State.isTypedef ⟨paren :: inside :: behindInside, typedefs, fileEnd⟩ name :=
          List.contains_iff_mem.mpr isType
        simp [isTypedef]
  refine .bind (stars smaller (length_lt_of_cost (by omega)) _ _ _ ahead starsStop) fun found same => ?_
  refine .bind (middle smaller (by omega) _ _ _ between coreStops) fun core sameCore => ?_
  refine .bind (behindName smaller smaller (by omega) (length_lt_of_cost (by omega)) _ _ _ behind stops)
    fun suffixes sameSuffixes => .pure ?_
  obtain ⟨sameName, sameLayers⟩ := Declarator.mk.inj sameCore
  rw [Declarator.unplaced, Declarator.unplaced, same, sameName]
  simp only [List.map_append, List.map_reverse, sameSuffixes, sameLayers]

/-! ### Parameters -/

theorem parameter {given : Specifiers} {declared : Declarator} (span : Span)
    (first : (Phrase.specifiers given).IsRead typedefs lexemes)
    (second : (Phrase.declarator declared).IsRead typedefs more)
    (startsFirst : ∃ kind others, lexemes = kind :: others ∧ OpensSpecifiers typedefs kind)
    (starts : more = [] ∨ ∃ kind, more.head? = some kind ∧ (∀ word, kind ≠ .keyword word) ∧
      kind ≠ .mark .leftBrace) :
    (parameter ⟨declared.name, declared.typeFrom given.base, span⟩).IsRead typedefs (lexemes ++ more) := by
  intro budget fileEnd tokens rest behind isMore enough spelled separated
  simp only [cost_append] at enough
  obtain ⟨between, ahead, spelled⟩ := spelled.append
  obtain ⟨stopsWords, stops⟩ := separated.stopsType
  have noEllipsis : next? tokens ≠ some (.mark .ellipsis) := by
    obtain ⟨kind, others, rfl, opens⟩ := startsFirst
    rw [ahead.next?_of_head rfl]
    exact fun same => opens.ne_mark _ (Option.some.inj same)
  refine .noMark noEllipsis (.location fun start => ?_)
  refine .bind (first budget (by omega) _ _ _ ahead (specifierStops spelled starts stopsWords))
    fun words ⟨_, _, sameBase⟩ => ?_
  refine .bind (second budget (by omega) _ _ _ spelled stops) fun found same => ?_
  refine .spanFrom fun span => .acceptComma separated (.pure ⟨_, rfl, ?_⟩)
  obtain ⟨sameName, -⟩ := Declarator.mk.inj same
  simp only [Parameter.unplaced, Declarator.unplaced_typeFrom, same, sameBase, sameName]

theorem ellipsis : (parameters [] true).IsRead typedefs [.mark .ellipsis] := by
  rintro budget count least enough fileEnd _ rest ⟨token, tokens, rfl, isEllipsis, rfl⟩ closes
  obtain ⟨last, rfl, -⟩ := exists_smaller (Nat.succ_le_of_lt enough)
  exact .collectLast last (.acceptMark isEllipsis (.pure ⟨_, rfl, rfl, rfl⟩))

theorem lastParameter {given : Parameter} (one : (Phrase.parameter given).IsRead typedefs lexemes) :
    (parameters [given] false).IsRead typedefs lexemes := by
  intro budget count least enough fileEnd tokens rest spelled closes
  obtain ⟨last, rfl, -⟩ := exists_smaller (Nat.succ_le_of_lt enough)
  have separated : Separated .rightParen rest rest false := ⟨rfl, closes⟩
  refine .collectLast last ((one budget fileEnd _ _ _ _ least spelled separated).mono ?_)
  exact fun taken ⟨value, same, sameValue⟩ => ⟨some value, same, by simp [sameValue], rfl⟩

theorem moreParameters {given : Parameter} {further : List Parameter} {isVariadic : Bool}
    (one : (Phrase.parameter given).IsRead typedefs lexemes)
    (rest : (parameters further isVariadic).IsRead typedefs more) :
    (parameters (given :: further) isVariadic).IsRead typedefs (lexemes ++ .mark .comma :: more) := by
  intro budget count least enough fileEnd tokens last spelled closes
  simp only [cost_append, cost_cons] at least
  simp only [List.length_cons, List.length_append] at enough
  obtain ⟨smaller, rfl, -⟩ := exists_smaller (Nat.succ_le_of_lt enough)
  obtain ⟨_, ahead, comma, between, rfl, isComma, behind⟩ := spelled.append
  have separated : Separated .rightParen (comma :: between) between true := ⟨comma, rfl, isComma⟩
  have steps : Takes typedefs fileEnd (parameterStep (Grammar.specifiersOf budget)
      (Grammar.declarator budget)) tokens between fun taken => ∃ entry, taken = some (entry, true) ∧
        ∃ value, entry = some value ∧ Parameter.unplaced value = given.unplaced :=
    (one budget fileEnd _ _ _ _ (by omega) ahead separated).mono
      fun taken ⟨value, same, sameValue⟩ => ⟨some value, same, value, rfl, sameValue⟩
  refine .collectMore steps fun entry ⟨value, isValue, sameValue⟩ => ?_
  refine (rest budget smaller (by omega) (by omega) _ _ _ behind closes).mono
    fun entries ⟨same, sameVariadic⟩ => ?_
  rw [isValue]
  refine ⟨?_, by simpa using sameVariadic⟩
  show (value :: entries.filterMap id).map Parameter.unplaced = _
  rw [List.map_cons, List.map_cons, sameValue, same]

end Phrase.IsRead

end InlineMacro.Parser
