import InlineMacro.Proofs.Token.Lexing

/-!
# Texts of known words

In a text that is put together from known words, keywords, numbers, literals and signs every identifier
that is scanned is a known word. Where signs run together does not matter, for no word comes of them;
a number takes whatever belongs to it, so what counts is what is left behind it.
-/

set_option autoImplicit false

namespace InlineMacro

/-! ## Signs -/

def Mark.opensOther (sign : Mark) : Bool :=
  sign == .dot || sign == .ellipsis || sign == .slash || sign == .slashEqual

def signCharacters : List Char :=
  [' ', '\n', '(', ')', '[', ']', '\x7b', '\x7d', ',', ';', ':', '?', '=', '<', '>', '+', '-', '*', '%',
    '&', '|', '^', '!', '~']

theorem Mark.mem_signCharacters {sign : Mark} (plain : sign.opensOther = false) :
    ∀ character ∈ sign.spelling.toList, character ∈ signCharacters := by
  have among : sign.spelling.toList.all (signCharacters.contains ·) := by
    cases sign <;> first | decide | cases plain
  exact fun character member => List.contains_iff_mem.mp (List.all_eq_true.mp among character member)

theorem Mark.head_of_opensOther {sign : Mark} (opens : sign.opensOther) :
    sign.spelling.toList.head? = some '.' ∨ sign.spelling.toList.head? = some '/' := by
  cases sign <;> first | decide | cases opens

theorem exists_mark_of_sign : ∀ character ∈ signCharacters, Text.isBlank character = false →
    ∃ sign ∈ Mark.byLength, sign.spelling.toList = [character] := by
  have marks : signCharacters.all fun character => Text.isBlank character ||
      Mark.byLength.any fun sign => sign.spelling.toList == [character] := by decide
  intro character isSign notBlank
  simpa [notBlank] using List.all_eq_true.mp marks character isSign

theorem of_mem_signCharacters : ∀ character ∈ signCharacters,
    Lexer.isIdentifierStart character = false ∧ character.isDigit = false ∧
      character ∉ ['\\', '#', '/', '.', '\'', '"'] := by
  have others : signCharacters.all fun character =>
      !Lexer.isIdentifierStart character && !character.isDigit &&
        !List.contains ['\\', '#', '/', '.', '\'', '"'] character := by decide
  intro character isSign
  simpa [and_assoc] using List.all_eq_true.mp others character isSign

def endsWord (character : Char) : Bool :=
  !Lexer.isIdentifierCharacter character && character != '\'' && character != '"'

/-! ## Texts -/

/-- Characters are known words, keywords, numbers, literals and signs. -/
inductive WordsAmong (known : String → Prop) : List Char → Prop where
  | nil : WordsAmong known []
  | sign {character : Char} {text : List Char} (isSign : character ∈ signCharacters)
    (behind : WordsAmong known text) : WordsAmong known (character :: text)
  | mark {sign : Mark} {text : List Char} (opens : sign.opensOther)
    (ends : ∀ character ∈ text.head?, sign.endsBefore character) (behind : WordsAmong known text) :
    WordsAmong known (sign.spelling.toList ++ text)
  | word {word text : List Char} (isWord : Lexeme.isWord word)
    (isKnown : Keyword.ofSpelling? (String.ofList word) = none → known (String.ofList word))
    (ends : ∀ character ∈ text.head?, endsWord character) (behind : WordsAmong known text) :
    WordsAmong known (word ++ text)
  | number {text : List Char} (starts : Lexer.StartsNumber text)
    (notBase : ¬((Lexer.numberText text).length = 2 ∧
      ['0', 'x'].isPrefixOf ((Lexer.numberText text).map Char.toLower)))
    (behind : WordsAmong known (text.drop (Lexer.numberText text).length)) : WordsAmong known text
  | character {spelling : String} {text : List Char} (spelled : (Lexeme.charLiteral spelling).isSpelled)
    (behind : WordsAmong known text) : WordsAmong known (spelling.toList ++ text)
  | string {spelling : String} {text : List Char} (spelled : (Lexeme.stringLiteral spelling).isSpelled)
    (behind : WordsAmong known text) : WordsAmong known (spelling.toList ++ text)

namespace WordsAmong

variable {known : String → Prop} {text : List Char}

theorem not_sign_of_quotedBody? {quote character : Char} {spelling body behind : List Char}
    (isQuote : quote = '\'' ∨ quote = '"') (found : Lexeme.quotedBody? quote spelling = some body)
    (isSign : character ∈ signCharacters) : character :: text ≠ spelling ++ behind := by
  intro same
  obtain ⟨notStart, -, other⟩ := of_mem_signCharacters character isSign
  simp only [List.mem_cons, List.not_mem_nil, or_false, not_or] at other
  obtain ⟨leading, rfl, -, rfl | isPrefix, -⟩ := Lexer.quotedBody?_eq_some found
  · obtain rfl := (List.cons.inj same).1
    rcases isQuote with rfl | rfl
    · exact other.2.2.2.2.1 rfl
    · exact other.2.2.2.2.2 rfl
  · have isWord := Lexer.isWord_of_literalPrefix isPrefix
    cases leading with
    | nil => cases isWord
    | cons first leading =>
      obtain rfl := (List.cons.inj same).1
      rw [(Bool.and_eq_true_iff.mp isWord).1] at notStart
      cases notStart

theorem tail_of_sign {character : Char} (isSign : character ∈ signCharacters)
    (among : WordsAmong known (character :: text)) : WordsAmong known text := by
  obtain ⟨notStart, notDigit, other⟩ := of_mem_signCharacters character isSign
  simp only [List.mem_cons, List.not_mem_nil, or_false, not_or] at other
  generalize whole : character :: text = all at among
  cases among with
  | nil => cases whole
  | sign _ behind =>
    cases whole
    exact behind
  | @mark sign behind opens =>
    have head : (sign.spelling.toList ++ behind).head? = some character := by rw [← whole]; rfl
    rw [List.head?_append] at head
    rcases sign.head_of_opensOther opens with same | same
    · rw [same] at head
      exact absurd (Option.some.inj head).symm other.2.2.2.1
    · rw [same] at head
      exact absurd (Option.some.inj head).symm other.2.2.1
  | @word word behind isWord =>
    cases word with
    | nil => cases isWord
    | cons first others =>
      obtain rfl := (List.cons.inj whole).1
      rw [(Bool.and_eq_true_iff.mp isWord).1] at notStart
      cases notStart
  | number starts =>
    obtain ⟨first, rest, same, digit | ⟨rfl, -⟩⟩ := starts
    · obtain rfl := (List.cons.inj (whole.trans same)).1
      rw [digit] at notDigit
      cases notDigit
    · exact absurd (List.cons.inj (whole.trans same)).1 other.2.2.2.1
  | character spelled =>
    obtain ⟨body, found, -⟩ := Lexer.exists_of_charLiteral spelled
    exact absurd whole (not_sign_of_quotedBody? (.inl rfl) found isSign)
  | string spelled =>
    obtain ⟨body, found⟩ := Option.isSome_iff_exists.mp spelled
    exact absurd whole (not_sign_of_quotedBody? (.inr rfl) found isSign)

theorem drop_signs {signs : List Char} (areSigns : ∀ character ∈ signs, character ∈ signCharacters)
    (among : WordsAmong known (signs ++ text)) : WordsAmong known text := by
  induction signs with
  | nil => exact among
  | cons sign signs ih =>
    rw [List.forall_mem_cons] at areSigns
    exact ih areSigns.2 (tail_of_sign areSigns.1 among)

/-! ## Scanning -/

def Steps (known : String → Prop) (text : List Char) : Prop :=
  Lexer.StartsToken text ∧ ∀ cursor : Cursor, cursor.rest = text →
    ∃ kind count, Lexer.lexeme.run cursor = .ok kind (cursor.past count) ∧ kind ≠ .endOfFile ∧
      (∀ name, kind = .identifier name → known name) ∧ 0 < count ∧
      WordsAmong known (text.drop count)

theorem steps_of_spelled {kind : Lexeme} (spelled : kind.isSpelled)
    (ends : ∀ character ∈ text.head?, kind.endsBefore character)
    (notIdentifier : ∀ name, kind ≠ .identifier name) (behind : WordsAmong known text) :
    Steps known (kind.spelling.toList ++ text) := by
  constructor
  · exact Lexer.startsToken_spelling spelled ends
  · intro cursor ahead
    refine ⟨kind, _, Lexer.lexeme_run spelled ends ahead, ?_, ?_, ?_, ?_⟩
    · rintro rfl
      cases spelled
    · exact fun name isName => absurd isName (notIdentifier name)
    · have opens : Lexer.StartsToken (kind.spelling.toList ++ []) :=
        Lexer.startsToken_spelling spelled (fun _ member => by cases member)
      cases spelling : kind.spelling.toList with
      | nil =>
        rw [spelling] at opens
        exact opens.elim
      | cons => exact Nat.succ_pos _
    · rwa [List.drop_left]

theorem steps_of_sign {character : Char} (isSign : character ∈ signCharacters)
    (notBlank : Text.isBlank character = false) (behind : WordsAmong known text) :
    Steps known (character :: text) := by
  obtain ⟨notStart, notDigit, other⟩ := of_mem_signCharacters character isSign
  simp only [List.mem_cons, List.not_mem_nil, or_false, not_or] at other
  obtain ⟨notBackslash, notHash, notSlash, notDot, notQuote, notDouble⟩ := other
  constructor
  · exact ⟨notBlank, notBackslash, notHash, fun isSlash => absurd isSlash notSlash⟩
  · intro cursor ahead
    obtain ⟨single, member, spelled⟩ := exists_mark_of_sign character isSign notBlank
    obtain ⟨sign, found⟩ : ∃ sign, Mark.longest? (character :: text) = some sign := by
      rw [← Option.isSome_iff_exists, Mark.longest?, List.find?_isSome]
      exact ⟨single, member, by rw [spelled]; simp⟩
    have isPrefix : sign.spelling.toList.isPrefixOf (character :: text) := by
      rw [Mark.longest?] at found
      simpa using List.find?_some found
    obtain ⟨rest, split⟩ := List.isPrefixOf_iff_prefix.mp isPrefix
    have plain : sign.opensOther = false := by
      cases opens : sign.opensOther with
      | false => rfl
      | true =>
        have head : (sign.spelling.toList ++ rest).head? = some character := by rw [split]; rfl
        rw [List.head?_append] at head
        rcases sign.head_of_opensOther opens with same | same
        · rw [same] at head
          exact absurd (Option.some.inj head).symm notDot
        · rw [same] at head
          exact absurd (Option.some.inj head).symm notSlash
    refine ⟨.mark sign, sign.spelling.toList.length, ?_, nofun, nofun, ?_, ?_⟩
    · have noQuote : (character == '\'') = false := beq_eq_false_iff_ne.mpr notQuote
      have noDouble : (character == '"') = false := beq_eq_false_iff_ne.mpr notDouble
      have noPoint : (character == '.') = false := beq_eq_false_iff_ne.mpr notDot
      simp only [Lexer.lexeme, EStateM.run_bind, EStateM.run_get, ahead, notStart, notDigit, noPoint,
        Bool.false_and, noQuote, noDouble, Bool.false_eq_true, if_false, Lexer.mark, found,
        Lexer.take_run, EStateM.run_pure]
    · obtain ⟨first, others, opens, -⟩ := Lexer.exists_of_mark sign
      rw [opens]
      exact Nat.succ_pos _
    · rw [← split, List.drop_left]
      exact drop_signs (Mark.mem_signCharacters plain) (split ▸ WordsAmong.sign isSign behind)

theorem steps_of_word {word : List Char} (isWord : Lexeme.isWord word)
    (isKnown : Keyword.ofSpelling? (String.ofList word) = none → known (String.ofList word))
    (ends : ∀ character ∈ text.head?, endsWord character) (behind : WordsAmong known text) :
    Steps known (word ++ text) := by
  constructor
  · exact Lexer.startsToken_word isWord text
  · intro cursor ahead
    have scans : Lexer.lexeme.run cursor = _ := (Lexer.lexeme_run_word isWord ahead).trans
      (Lexer.word_run isWord (by simpa [endsWord, and_assoc] using ends) ahead)
    have some : 0 < word.length := by
      cases word with
      | nil => cases isWord
      | cons => exact Nat.succ_pos _
    have left : WordsAmong known ((word ++ text).drop word.length) := by rwa [List.drop_left]
    cases found : Keyword.ofSpelling? (String.ofList word) with
    | some keyword =>
      rw [found] at scans
      exact ⟨_, _, scans, nofun, nofun, some, left⟩
    | none =>
      rw [found] at scans
      refine ⟨_, _, scans, nofun, ?_, some, left⟩
      rintro name ⟨⟩
      exact isKnown found

theorem steps_of_number (starts : Lexer.StartsNumber text) (notBase : ¬((Lexer.numberText text).length = 2 ∧
      ['0', 'x'].isPrefixOf ((Lexer.numberText text).map Char.toLower)))
    (behind : WordsAmong known (text.drop (Lexer.numberText text).length)) : Steps known text := by
  obtain ⟨isNumber, notEmpty⟩ := Lexer.isNumber_numberText starts notBase
  obtain ⟨first, rest, rfl, opens⟩ := starts
  constructor
  · rcases opens with digit | ⟨rfl, -⟩
    · obtain ⟨-, notBlank, other⟩ := Lexer.of_isDigit digit
      simp only [List.mem_cons, List.not_mem_nil, or_false, not_or] at other
      exact ⟨notBlank, other.1, other.2.1, fun same => absurd same other.2.2.1⟩
    · exact ⟨by decide, by decide, by decide, fun same => absurd same (by decide)⟩
  · intro cursor ahead
    have scans : Lexer.number.run cursor = .ok (Lexer.numberLexeme (Lexer.numberText (first :: rest)))
        (cursor.past (Lexer.numberText (first :: rest)).length) := by
      simp only [Lexer.number, EStateM.run_bind, EStateM.run_get, ahead, Lexer.take_run, if_neg notBase,
        EStateM.run_pure]
    refine ⟨Lexer.numberLexeme (Lexer.numberText (first :: rest)), _, ?_, ?_, ?_,
      List.length_pos_iff.mpr notEmpty, behind⟩
    · rw [← scans]
      rcases opens with digit | ⟨rfl, digit⟩
      · simp only [Lexer.lexeme, EStateM.run_bind, EStateM.run_get, ahead, (Lexer.of_isDigit digit).1,
          digit, Bool.false_eq_true, if_false, if_true]
      · have notStart : Lexer.isIdentifierStart '.' = false := by decide
        have notDigit : Char.isDigit '.' = false := by decide
        simp only [Lexer.lexeme, EStateM.run_bind, EStateM.run_get, ahead, notStart, notDigit, digit,
          BEq.rfl, Bool.and_self, Bool.false_eq_true, if_false, if_true]
    · intro isEnd
      have spelled := Lexer.isSpelled_numberLexeme isNumber
      rw [isEnd] at spelled
      cases spelled
    · intro name isName
      unfold Lexer.numberLexeme at isName
      dsimp only at isName
      split at isName <;> cases isName

theorem skipWithin (among : WordsAmong known text) {cursor : Cursor} (ahead : cursor.rest = text)
    {budget : Nat} (enough : text.length < budget) :
    ∃ count, (Lexer.skipWithin budget).run cursor = .ok ⟨⟩ (cursor.past count) ∧
      ((cursor.past count).rest = [] ∨ Steps known (cursor.past count).rest) := by
  have atToken {cursor : Cursor} {text : List Char} (steps : Steps known text)
      (ahead : cursor.rest = text) {budget : Nat} (enough : text.length < budget) :
      ∃ count, (Lexer.skipWithin budget).run cursor = .ok ⟨⟩ (cursor.past count) ∧
        ((cursor.past count).rest = [] ∨ Steps known (cursor.past count).rest) := by
    obtain ⟨budget, rfl⟩ := Nat.exists_eq_add_one_of_ne_zero (Nat.ne_of_gt (Nat.zero_lt_of_lt enough))
    refine ⟨0, ?_, .inr (ahead ▸ steps)⟩
    simp [Lexer.skipWithin, Lexer.skipOne_token (ahead ▸ steps.1), Cursor.past]
  induction among generalizing cursor budget with
  | nil =>
    obtain ⟨budget, rfl⟩ := Nat.exists_eq_add_one_of_ne_zero (Nat.ne_of_gt enough)
    refine ⟨0, ?_, .inl ahead⟩
    simp [Lexer.skipWithin, Lexer.skipOne_end ahead, Cursor.past]
  | @sign character text isSign behind ih =>
    cases isBlank : Text.isBlank character with
    | false => exact atToken (steps_of_sign isSign isBlank behind) ahead enough
    | true =>
      obtain ⟨budget, rfl⟩ :=
        Nat.exists_eq_add_one_of_ne_zero (Nat.ne_of_gt (Nat.zero_lt_of_lt enough))
      have next : cursor.advance.rest = text := by rw [Cursor.rest_advance, ahead]; rfl
      obtain ⟨count, skips, found⟩ := ih next (Nat.lt_of_succ_lt_succ enough)
      refine ⟨count + 1, ?_, found⟩
      rw [Lexer.skipWithin, EStateM.run_bind, Lexer.skipOne_blank ahead isBlank]
      exact skips
  | @mark sign text opens ends behind =>
    have spelled : (Lexeme.mark sign).isSpelled := rfl
    exact atToken (steps_of_spelled spelled ends (fun _ same => by cases same) behind) ahead enough
  | word isWord isKnown ends behind =>
    exact atToken (steps_of_word isWord isKnown ends behind) ahead enough
  | number starts notBase behind => exact atToken (steps_of_number starts notBase behind) ahead enough
  | character spelled behind =>
    exact atToken (steps_of_spelled spelled (fun _ _ => rfl) (fun _ same => by cases same) behind) ahead enough
  | string spelled behind =>
    exact atToken (steps_of_spelled spelled (fun _ _ => rfl) (fun _ same => by cases same) behind) ahead enough

theorem tokensWithin {source : String} (among : WordsAmong known text) {cursor : Cursor}
    (ahead : cursor.rest = text) {budget : Nat} (enough : text.length < budget) :
    ∃ tokens after, (Lexer.tokensWithin budget).run cursor = .ok tokens after ∧
      (∀ token ∈ tokens, ∀ name, token.lexeme = .identifier name → known name) ∧
      (cursor.Bounded source → after.Bounded source) := by
  induction budget generalizing cursor text with
  | zero => exact absurd enough (Nat.not_lt_zero _)
  | succ budget ih =>
    obtain ⟨skipped, skips, found⟩ := among.skipWithin ahead (Nat.lt_succ_self text.length)
    rw [← ahead] at skips
    rcases found with atEnd | ⟨starts, scans⟩
    · have reads := Lexer.next_run skips (Lexer.lexeme_run_end atEnd)
      refine ⟨_, _, Lexer.tokensWithin_last reads rfl budget, ?_,
        fun bounded => Lexer.bounded_inLine (bounded.past skipped)⟩
      rw [List.forall_mem_singleton]
      exact nofun
    · obtain ⟨kind, count, scanned, notEnd, isKnown, some, left⟩ :=
        scans { cursor.past skipped with atLineStart := false } rfl
      have reads := Lexer.next_run skips scanned
      have behind : (Cursor.past count { cursor.past skipped with atLineStart := false }).rest =
          (cursor.past skipped).rest.drop count := Cursor.rest_past _ _
      have notEmpty : 0 < (cursor.past skipped).rest.length := by
        cases rest : (cursor.past skipped).rest with
        | nil =>
          rw [rest] at starts
          exact starts.elim
        | cons => exact Nat.succ_pos _
      have within := Lexer.length_rest_past_le cursor skipped
      rw [ahead] at within
      obtain ⟨tokens, after, runs, others, fits⟩ := ih left behind (by
        rw [List.length_drop]
        omega)
      refine ⟨_, after, Lexer.tokensWithin_more reads notEnd runs,
        List.forall_mem_cons.mpr ⟨isKnown, others⟩, fun bounded => fits ?_⟩
      exact (Lexer.bounded_inLine (bounded.past skipped)).past count

end WordsAmong

/-- A text of known words has known identifiers for tokens, unless it is so long that lines and columns
cannot be counted. -/
theorem Lexer.tokenize_of_wordsAmong {known : String → Prop} {text : String}
    (among : WordsAmong known text.toList) (file : String) : (∃ tokens, tokenize text file = .ok tokens ∧
      ∀ token ∈ tokens, ∀ name, token.lexeme = .identifier name → known name) ∨
      tokenize text file = .error .overflow ∧ Text.lineBound ≤ text.length + 1 := by
  obtain ⟨found, after, runs, isKnown, bounded⟩ := among.tokensWithin
    (show (Cursor.ofText text file).rest = text.toList from rfl) (Nat.lt_succ_self _)
  exact (tokenize_of_run runs bounded).imp_left fun tokenized => ⟨found, tokenized, isKnown⟩

/-!
## Pieces of a text of known words

A text is put together from pieces that may go on with anything that their end allows: behind a word
something must part it from the next one, and behind a number nothing may stand that belongs to it.
-/

/-! ### Ends -/

/-- Characters that go on with no number: a sign of an exponent may stand there, but nothing of a number
behind it. -/
def endsNumber : List Char → Bool
  | [] => true
  | first :: others =>
    !Lexer.isNumberCharacter first && (first != '+' && first != '-' ||
      others.head?.all fun second => !Lexer.isNumberCharacter second)

/-- What a text ends with: something that ends anywhere, a word, or a number. -/
inductive PieceEnd where
  | closed
  | word
  | number
deriving DecidableEq

def PieceEnd.Stops : PieceEnd → List Char → Prop
  | closed, _ => True
  | word, text => ∀ character ∈ text.head?, endsWord character
  | number, text => (∀ character ∈ text.head?, endsWord character) ∧ endsNumber text

theorem PieceEnd.Stops.weaken {ending : PieceEnd} {text : List Char} (stops : number.Stops text) :
    ending.Stops text := by
  cases ending with
  | closed => trivial
  | word => exact stops.1
  | number => exact stops

/-! ### Numbers -/

theorem Lexer.numberText_of_endsNumber {text : List Char} (ends : endsNumber text) :
    numberText text = [] := by
  cases text with
  | nil => rfl
  | cons first others =>
    have other : isNumberCharacter first = false := by
      rw [← Bool.not_eq_true']
      exact (Bool.and_eq_true_iff.mp ends).1
    cases others <;> simp [numberText, other]

theorem Lexer.numberText_append_sign {number text : List Char} (whole : numberText number = number)
    (ends : endsNumber text) : numberText (number ++ text) = number ∨
      ∃ sign others, text = sign :: others ∧ (sign = '+' ∨ sign = '-') ∧
        numberText (number ++ text) = number ++ [sign] := by
  induction number using numberText.induct with
  | case1 => exact .inl (numberText_of_endsNumber ends)
  | case2 character isNumber =>
    cases text with
    | nil => exact .inl whole
    | cons first others =>
      have behind := numberText_of_endsNumber ends
      obtain ⟨-, sign⟩ := Bool.and_eq_true_iff.mp ends
      simp only [List.singleton_append, numberText, isNumber, behind]
      cases exponent : isExponentMark character && (first == '+' || first == '-') with
      | false => simp
      | true =>
        right
        obtain ⟨-, isSign⟩ := Bool.and_eq_true_iff.mp exponent
        have isSign : first = '+' ∨ first = '-' := by simpa using isSign
        refine ⟨first, others, rfl, isSign, ?_⟩
        have left : numberText others = [] := by
          cases others with
          | nil => rfl
          | cons second others =>
            have other : isNumberCharacter second = false := by
              rcases isSign with rfl | rfl <;> simpa using sign
            cases others <;> simp [numberText, other]
        simp [left]
  | case3 character notNumber => simp [numberText, notNumber] at whole
  | case4 character next rest notNumber => simp [numberText, notNumber] at whole
  | case5 character next others isNumber sign ih =>
    rw [numberText, if_neg isNumber, if_pos sign] at whole
    have inner : numberText others = others := by simpa using whole
    rw [List.cons_append, List.cons_append, numberText, if_neg isNumber, if_pos sign]
    rcases ih inner with same | ⟨found, more, rfl, isSign, same⟩
    · exact .inl (by rw [same])
    · exact .inr ⟨found, more, rfl, isSign, by rw [same]; rfl⟩
  | case6 character next others isNumber noSign ih =>
    rw [numberText, if_neg isNumber, if_neg noSign] at whole
    have inner : numberText (next :: others) = next :: others := by simpa using whole
    rw [List.cons_append, List.cons_append, numberText, if_neg isNumber, if_neg noSign, ← List.cons_append]
    rcases ih inner with same | ⟨found, more, rfl, isSign, same⟩
    · exact .inl (by rw [same])
    · exact .inr ⟨found, more, rfl, isSign, by rw [same]; rfl⟩

theorem Lexer.startsNumber_of_isNumber {number : List Char} (isNumber : Lexeme.isNumber number)
    (text : List Char) : StartsNumber (number ++ text) := by
  obtain ⟨first, others, rfl, digit | ⟨rfl, second⟩⟩ := exists_of_isNumber isNumber
  · exact ⟨first, others ++ text, rfl, .inl digit⟩
  · refine ⟨'.', others ++ text, rfl, .inr ⟨rfl, ?_⟩⟩
    cases others with
    | nil => cases second
    | cons => exact second

theorem WordsAmong.ofNumber {known : String → Prop} {number text : List Char}
    (isNumber : Lexeme.isNumber number) (ends : endsNumber text) (behind : WordsAmong known text) :
    WordsAmong known (number ++ text) := by
  have starts := Lexer.startsNumber_of_isNumber isNumber text
  obtain ⟨first, others, opens, -⟩ := Lexer.exists_of_isNumber isNumber
  simp only [Lexeme.isNumber, Bool.and_eq_true, beq_iff_eq, Bool.not_eq_true'] at isNumber
  rcases Lexer.numberText_append_sign isNumber.1.2 ends with same | ⟨sign, more, rfl, isSign, same⟩
  · apply WordsAmong.number starts
    · rw [same]
      rintro ⟨two, base⟩
      simp [two, base] at isNumber
    · rwa [same, List.drop_left]
  · apply WordsAmong.number starts
    · -- The sign is no part of the mark of a base.
      rw [same, opens]
      rintro ⟨two, base⟩
      obtain rfl : others = [] := by simpa using two
      rcases isSign with rfl | rfl <;> simp at base
    · have left : (number ++ sign :: more).drop (number ++ [sign]).length = more := by
        rw [List.append_cons number sign more, List.drop_left]
      rw [same, left]
      exact WordsAmong.tail_of_sign (by rcases isSign with rfl | rfl <;> decide) behind

/-! ### Pieces -/

def Piece (known : String → Prop) (ending : PieceEnd) (text : String) : Prop :=
  ∀ behind, ending.Stops behind → WordsAmong known behind → WordsAmong known (text.toList ++ behind)

def PieceEnd.parts (ending : PieceEnd) (text : String) : Bool :=
  match text.toList, ending with
  | [], _ => false
  | _ :: _, closed => true
  | first :: _, word => endsWord first
  | first :: others, number =>
    endsWord first && !Lexer.isNumberCharacter first && (first != '+' && first != '-' ||
      others.head?.any fun second => !Lexer.isNumberCharacter second)

def isKeyword (word : List Char) : Bool :=
  Lexeme.isWord word && (Keyword.ofSpelling? (String.ofList word)).isSome

def isFixedFrom (endsInWord : Bool) (word : List Char) : List Char → Bool
  | [] => word.isEmpty || endsInWord && isKeyword word
  | character :: rest =>
    if Lexer.isIdentifierCharacter character then isFixedFrom endsInWord (word ++ [character]) rest
    else
      (word.isEmpty || isKeyword word) && signCharacters.contains character && endsWord character &&
        isFixedFrom endsInWord [] rest

theorem WordsAmong.keyword {known : String → Prop} {word text : List Char} (isKeyword : isKeyword word)
    (ends : ∀ character ∈ text.head?, endsWord character) (behind : WordsAmong known text) :
    WordsAmong known (word ++ text) := by
  obtain ⟨isWord, found⟩ := Bool.and_eq_true_iff.mp isKeyword
  refine .word isWord (fun none => ?_) ends behind
  rw [none] at found
  cases found

theorem WordsAmong.fixed {known : String → Prop} {endsInWord : Bool} {word text behind : List Char}
    (isFixed : isFixedFrom endsInWord word text)
    (stops : endsInWord → ∀ character ∈ behind.head?, endsWord character)
    (among : WordsAmong known behind) : WordsAmong known (word ++ (text ++ behind)) := by
  induction text generalizing word with
  | nil =>
    rw [isFixedFrom, Bool.or_eq_true, List.isEmpty_iff, Bool.and_eq_true] at isFixed
    rcases isFixed with rfl | ⟨inWord, isWord⟩
    · exact among
    · exact .keyword isWord (stops inWord) among
  | cons character rest ih =>
    rw [isFixedFrom] at isFixed
    split at isFixed
    · have further := ih isFixed
      rwa [List.append_assoc] at further
    · simp only [Bool.and_eq_true, Bool.or_eq_true, List.isEmpty_iff, List.contains_iff_mem] at isFixed
      obtain ⟨⟨⟨isWord, isSign⟩, ends⟩, others⟩ := isFixed
      have further : WordsAmong known (character :: (rest ++ behind)) := .sign isSign (ih others)
      rcases isWord with rfl | isWord
      · exact further
      · refine .keyword isWord ?_ further
        rintro _ ⟨⟩
        exact ends

namespace Piece

variable {known : String → Prop} {ending before : PieceEnd} {text front : String}

theorem fixed (isFixed : isFixedFrom false [] text.toList) : Piece known ending text :=
  fun _ _ among => WordsAmong.fixed isFixed nofun among

theorem keywords (isFixed : isFixedFrom true [] text.toList) : Piece known .word text :=
  fun _ stops among => WordsAmong.fixed isFixed (fun _ => stops) among

theorem name (spelled : (Lexeme.identifier text).isSpelled) (isKnown : known text) :
    Piece known .word text := by
  intro behind stops among
  refine .word (Bool.and_eq_true_iff.mp spelled).1 (fun _ => ?_) stops among
  rwa [String.ofList_toList]

theorem ofNumber (isNumber : Lexeme.isNumber text.toList) : Piece known .number text :=
  fun _ stops among => .ofNumber isNumber stops.2 among

theorem character (spelled : (Lexeme.charLiteral text).isSpelled) : Piece known ending text :=
  fun _ _ among => .character spelled among

theorem string (spelled : (Lexeme.stringLiteral text).isSpelled) : Piece known ending text :=
  fun _ _ among => .string spelled among

theorem mark {sign : Mark} (opens : sign.opensOther) {behind : String}
    (ends : ∀ rest, ∀ character ∈ (behind.toList ++ rest).head?, sign.endsBefore character)
    (piece : Piece known ending behind) : Piece known ending (sign.spelling ++ behind) := by
  intro rest stops among
  rw [String.toList_append, List.append_assoc]
  exact .mark opens (ends rest) (piece rest stops among)

theorem toNumber (piece : Piece known ending text) : Piece known .number text :=
  fun behind stops among => piece behind stops.weaken among

theorem ofClosed (piece : Piece known .closed text) : Piece known ending text :=
  fun behind _ among => piece behind trivial among

theorem append (first : Piece known before front) (second : Piece known ending text)
    (stops : ∀ behind, ending.Stops behind → before.Stops (text.toList ++ behind)) :
    Piece known ending (front ++ text) := by
  intro behind ends among
  rw [String.toList_append, List.append_assoc]
  exact first _ (stops behind ends) (second behind ends among)

theorem closed_append (first : Piece known .closed front) (second : Piece known ending text) :
    Piece known ending (front ++ text) :=
  first.append second fun _ _ => trivial

theorem before_parting (first : Piece known before front) (second : Piece known ending text)
    (parts : before.parts text) : Piece known ending (front ++ text) := by
  refine first.append second fun behind _ => ?_
  unfold PieceEnd.parts at parts
  split at parts
  · cases parts
  · trivial
  · next first others same =>
    rw [same]
    rintro _ ⟨⟩
    exact parts
  · next first others same =>
    simp only [Bool.and_eq_true] at parts
    rw [same]
    refine ⟨?_, ?_⟩
    · rintro _ ⟨⟩
      exact parts.1.1
    · rw [List.cons_append, endsNumber, parts.1.2, Bool.true_and]
      rcases Bool.or_eq_true _ _ ▸ parts.2 with notSign | second
      · rw [notSign, Bool.true_or]
      · cases others with
        | nil => cases second
        | cons next others =>
          rw [Bool.or_eq_true]
          exact .inr second

end Piece

end InlineMacro
