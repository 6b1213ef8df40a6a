import InlineMacro.Proofs.Token.Counters

/-!
# What a text is scanned as

A lexeme is scanned from its spelling as long as the character behind it does not go on with it. So
what a text that is put together from spellings and blanks is scanned as can be told from its
pieces.
-/

set_option autoImplicit false

namespace InlineMacro

/-! ## Spellings -/

/-- Whether a mark ends in front of a character: neither a longer mark, nor a comment, nor a number
starts with the two. -/
def Mark.endsBefore (mark : Mark) (character : Char) : Bool :=
  byLength.all (fun longer =>
    !(mark.spelling.toList ++ [character]).isPrefixOf longer.spelling.toList) &&
  !(mark == slash && (character == '/' || character == '*')) &&
  !(mark == dot && character.isDigit)

namespace Lexeme

open Lexer

def isNumber (spelling : List Char) : Bool :=
  (match spelling with
    | [] => false
    | first :: rest => first.isDigit || first == '.' && rest.head?.any Char.isDigit) &&
  numberText spelling == spelling &&
  !(spelling.length == 2 && ['0', 'x'].isPrefixOf (spelling.map Char.toLower))

/-- The text of a literal behind its opening quote, if the characters are a literal with that quote
and nothing else. -/
def quotedBody? (quote : Char) (spelling : List Char) : Option (List Char) :=
  let leading := spelling.takeWhile (· != quote)
  match spelling.dropWhile (· != quote) with
  | [] => none
  | _ :: body =>
    if (leading.isEmpty || literalPrefixes.contains (String.ofList leading)) &&
        quotedText quote body == (body, true)
    then some body else none

def isWord : List Char → Bool
  | [] => false
  | first :: rest => isIdentifierStart first && rest.all isIdentifierCharacter

def isSpelled : Lexeme → Bool
  | .intLiteral spelling =>
    isNumber spelling.toList && numberLexeme spelling.toList == .intLiteral spelling
  | .floatLiteral spelling =>
    isNumber spelling.toList && numberLexeme spelling.toList == .floatLiteral spelling
  | .charLiteral spelling => (quotedBody? '\'' spelling.toList).any (· != ['\''])
  | .stringLiteral spelling => (quotedBody? '"' spelling.toList).isSome
  | .identifier name => isWord name.toList && Keyword.ofSpelling? name == none
  | .keyword _ | .mark _ => true
  | .endOfFile => false

def endsBefore (lexeme : Lexeme) (character : Char) : Bool :=
  match lexeme with
  | .intLiteral _ | .floatLiteral _ =>
    !isNumberCharacter character && character != '+' && character != '-'
  | .charLiteral _ | .stringLiteral _ => true
  | .identifier _ | .keyword _ =>
    !isIdentifierCharacter character && character != '\'' && character != '"'
  | .mark sign => sign.endsBefore character
  | .endOfFile => false

end Lexeme

theorem Cursor.past_add (first second : Nat) (cursor : Cursor) :
    past (first + second) cursor = past second (past first cursor) := by
  induction first generalizing cursor with
  | zero => rw [Nat.zero_add]; rfl
  | succ first ih => rw [Nat.succ_add]; exact ih cursor.advance

/-! ## Characters -/

namespace Lexer

theorem isIdentifierCharacter_of_isIdentifierStart {character : Char}
    (starts : isIdentifierStart character) : isIdentifierCharacter character := by
  simp only [isIdentifierStart, isIdentifierCharacter, Bool.or_eq_true] at starts ⊢
  refine starts.imp_left (Or.imp_left fun letter => ?_)
  unfold Text.isLetter at letter
  unfold Text.isLetterOrNumeral
  split at letter
  · next ascii => rw [if_pos ascii, Char.isAlphanum, letter, Bool.true_or]
  · next other => rw [if_neg other, letter, Bool.true_or]

theorem isLetter_blanks : ∀ range ∈ Text.blankRanges, ∀ offset < 11, range.1 + offset ≤ range.2 →
    Text.inRanges Text.alphabeticRanges (range.1 + offset) = false := by
  decide +kernel

theorem isIdentifierStart_controls : ∀ code < 33, isIdentifierStart (Char.ofNat code) = false := by
  decide

theorem not_isBlank_of_isIdentifierStart {character : Char} (starts : isIdentifierStart character) :
    Text.isBlank character = false := by
  by_contra isBlank
  rw [Bool.not_eq_false] at isBlank
  unfold Text.isBlank at isBlank
  split at isBlank
  · have low : character.toNat < 33 := by
      simp only [Bool.or_eq_true, beq_iff_eq, Bool.and_eq_true, decide_eq_true_eq] at isBlank
      rcases isBlank with rfl | ⟨-, most⟩
      · decide
      · omega
    have none := isIdentifierStart_controls character.toNat low
    rw [Char.ofNat_toNat, starts] at none
    cases none
  · next other =>
    simp only [isIdentifierStart, Text.isLetter, if_neg other, Bool.or_eq_true, beq_iff_eq] at starts
    obtain ⟨range, member, within⟩ := List.any_eq_true.mp isBlank
    simp only [Bool.and_eq_true, decide_eq_true_eq] at within
    have short : ∀ range ∈ Text.blankRanges, range.2 < range.1 + 11 := by decide
    have near := short range member
    have none := isLetter_blanks range member (character.toNat - range.1) (by omega) (by omega)
    rw [Nat.add_sub_cancel' within.1] at none
    rcases starts with (letter | rfl) | rfl
    · rw [none] at letter
      cases letter
    · exact other (by decide)
    · exact other (by decide)

/-! ## What stands in front of something else -/

theorem numberText_append {number rest : List Char} (whole : numberText number = number)
    (ends : ∀ character ∈ rest.head?,
      isNumberCharacter character = false ∧ character ≠ '+' ∧ character ≠ '-') :
    numberText (number ++ rest) = number := by
  induction number using numberText.induct with
  | case1 =>
    cases rest with
    | nil => rfl
    | cons first rest =>
      have other := (ends first rfl).1
      cases rest <;> simp [numberText, other]
  | case2 character isNumber =>
    cases rest with
    | nil => exact whole
    | cons first rest =>
      obtain ⟨other, notPlus, notMinus⟩ := ends first rfl
      cases rest <;> simp [numberText, isNumber, other, notPlus, notMinus]
  | case3 character notNumber => simp [numberText, notNumber] at whole
  | case4 character next rest notNumber => simp [numberText, notNumber] at whole
  | case5 character next others isNumber sign ih =>
    rw [numberText, if_neg isNumber, if_pos sign] at whole
    rw [List.cons_append, List.cons_append, numberText, if_neg isNumber, if_pos sign,
      ih (by simpa using whole)]
  | case6 character next others isNumber noSign ih =>
    rw [numberText, if_neg isNumber, if_neg noSign] at whole
    rw [List.cons_append, List.cons_append, numberText, if_neg isNumber, if_neg noSign,
      ← List.cons_append, ih (by simpa using whole)]

theorem quotedText_append {quote : Char} {body : List Char} (rest : List Char)
    (closed : quotedText quote body = (body, true)) : quotedText quote (body ++ rest) = (body, true) := by
  induction body using quotedText.induct quote with
  | case1 | case2 => cases closed
  | case3 escaped others text isClosed same ih =>
    simp only [quotedText, Prod.mk.injEq, List.cons.injEq, true_and] at closed
    simp [quotedText, ih (Prod.ext closed.1 closed.2)]
  | case4 others => simp [quotedText] at closed
  | case5 first others notAlone notEscaped notNewline isQuote =>
    have notBackslash : first ≠ '\\' := fun escapes => by
      cases others with
      | nil => exact notAlone escapes rfl
      | cons next others => exact notEscaped next others escapes rfl
    have nothing : others = [] := by simpa [quotedText, isQuote] using closed
    simp [quotedText, isQuote, notBackslash, nothing]
  | case6 first others notAlone notEscaped notNewline notQuote text isClosed same ih =>
    have notBackslash : first ≠ '\\' := fun escapes => by
      cases others with
      | nil => exact notAlone escapes rfl
      | cons next others => exact notEscaped next others escapes rfl
    have closes : quotedText quote others = (others, true) := by
      simpa [quotedText, notQuote, notBackslash, Prod.ext_iff] using closed
    simp [quotedText, notQuote, notBackslash, ih closes]

end Lexer

namespace Mark

theorem mem_byLength (mark : Mark) : mark ∈ byLength := by cases mark <;> decide

theorem byLength_pairwise : byLength.Pairwise fun earlier later =>
    earlier.spelling.toList.isPrefixOf later.spelling.toList = false := by
  decide +kernel

theorem longest?_append {mark : Mark} {rest : List Char}
    (ends : ∀ character ∈ rest.head?, mark.endsBefore character) :
    longest? (mark.spelling.toList ++ rest) = some mark := by
  obtain ⟨earlier, later, same, -⟩ := List.eq_append_cons_of_mem (mem_byLength mark)
  refine List.find?_eq_some_iff_append.mpr ⟨?_, earlier, later, same, fun other member => ?_⟩
  · simp
  · have notPrefix : other.spelling.toList.isPrefixOf mark.spelling.toList = false := by
      have pairs := byLength_pairwise
      rw [same] at pairs
      exact (List.pairwise_append.mp pairs).2.2 other member mark List.mem_cons_self
    by_contra starts
    simp only [Bool.not_eq_true', Bool.not_eq_false, List.isPrefixOf_iff_prefix] at starts
    rcases List.prefix_or_prefix_of_prefix starts (List.prefix_append _ rest) with shorter | longer
    · rw [← List.isPrefixOf_iff_prefix, notPrefix] at shorter
      cases shorter
    · obtain ⟨more, spelled⟩ := longer
      rw [← spelled, List.prefix_append_right_inj] at starts
      cases more with
      | nil =>
        rw [← spelled, List.append_nil] at notPrefix
        exact Bool.eq_false_iff.mp notPrefix (List.isPrefixOf_iff_prefix.mpr (List.prefix_refl _))
      | cons character more =>
        obtain ⟨behind, rfl⟩ := starts
        have longest := (Bool.and_eq_true_iff.mp (Bool.and_eq_true_iff.mp (ends character rfl)).1).1
        have none := List.all_eq_true.mp longest other (mem_byLength other)
        rw [← spelled, Bool.not_eq_true'] at none
        refine Bool.eq_false_iff.mp none (List.isPrefixOf_iff_prefix.mpr ?_)
        exact ⟨more, by rw [List.append_assoc, List.singleton_append]⟩

end Mark

namespace Lexer

/-! ## Scanning a spelling -/

variable {cursor : Cursor} {rest : List Char}

@[simp] theorem take_run (text : List Char) (cursor : Cursor) :
    (take text).run cursor = .ok ⟨⟩ (cursor.past text.length) := rfl

variable {spelling : List Char}

theorem number_run (isNumber : Lexeme.isNumber spelling)
    (ends : ∀ character ∈ rest.head?, isNumberCharacter character = false ∧ character ≠ '+' ∧ character ≠ '-')
    (ahead : cursor.rest = spelling ++ rest) :
    number.run cursor = .ok (numberLexeme spelling) (cursor.past spelling.length) := by
  simp only [Lexeme.isNumber, Bool.and_eq_true, beq_iff_eq, Bool.not_eq_true'] at isNumber
  have whole := numberText_append isNumber.1.2 ends
  have notBare : ¬(spelling.length = 2 ∧ ['0', 'x'].isPrefixOf (spelling.map Char.toLower)) := by
    rintro ⟨two, hex⟩
    simp [two, hex] at isNumber
  simp only [number, EStateM.run_bind, EStateM.run_get, ahead, whole, take_run, if_neg notBare,
    EStateM.run_pure]

variable {quote : Char} {body : List Char}

theorem quoted_run (closed : quotedText quote body = (body, true))
    (what : String) (ahead : cursor.rest = quote :: (body ++ rest)) :
    (quoted quote what).run cursor = .ok (quote :: body) (cursor.past (body.length + 1)) := by
  have behind : (cursor.past 1).rest = body ++ rest := by
    rw [Cursor.rest_past, ahead]
    rfl
  simp only [quoted, EStateM.run_bind, EStateM.run_get, ahead, List.take_succ_cons, List.take_zero,
    take_run, List.length_singleton, behind, quotedText_append rest closed, if_true,
    EStateM.run_pure, List.singleton_append]
  rfl

theorem stringLiteral_run (closed : quotedText '"' body = (body, true))
    (leading : String) (ahead : cursor.rest = '"' :: (body ++ rest)) :
    (stringLiteral leading).run cursor =
      .ok (.stringLiteral (leading ++ String.ofList ('"' :: body))) (cursor.past (body.length + 1)) := by
  simp only [stringLiteral, EStateM.run_bind, quoted_run closed _ ahead, EStateM.run_pure]

theorem length_le_utf8ByteSize (characters : List Char) :
    characters.length ≤ (String.ofList characters).utf8ByteSize := by
  induction characters with
  | nil => exact Nat.zero_le _
  | cons first others ih =>
    have parts : String.ofList (first :: others) = String.singleton first ++ String.ofList others := by
      rw [String.singleton_eq_ofList, ← String.ofList_append]
      rfl
    have some := first.utf8Size_pos
    rw [parts, String.utf8ByteSize_append, String.utf8ByteSize_singleton, List.length_cons]
    omega

theorem charLiteral_run (closed : quotedText '\'' body = (body, true))
    (notEmpty : body ≠ ['\'']) (leading : String) (ahead : cursor.rest = '\'' :: (body ++ rest)) :
    (charLiteral leading).run cursor =
      .ok (.charLiteral (leading ++ String.ofList ('\'' :: body))) (cursor.past (body.length + 1)) := by
  have long : (String.ofList ('\'' :: body)).utf8ByteSize ≠ 2 := by
    have least := length_le_utf8ByteSize ('\'' :: body)
    match body, notEmpty, closed with
    | [only], notEmpty, closed =>
      have isQuote : only = '\'' := by
        unfold quotedText at closed
        split at closed <;> simp_all [quotedText]
      exact absurd (congrArg (· :: []) isQuote) notEmpty
    | first :: second :: others, _, _ =>
      rw [List.length_cons, List.length_cons, List.length_cons] at least
      omega
  simp only [charLiteral, EStateM.run_bind, quoted_run closed _ ahead, if_neg long, EStateM.run_pure]

theorem quotedBody?_eq_some (found : Lexeme.quotedBody? quote spelling = some body) :
    ∃ leading, spelling = leading ++ quote :: body ∧ quote ∉ leading ∧
      (leading = [] ∨ literalPrefixes.contains (String.ofList leading)) ∧
        quotedText quote body = (body, true) := by
  unfold Lexeme.quotedBody? at found
  dsimp only at found
  have whole := List.takeWhile_append_dropWhile (p := (· != quote)) (l := spelling)
  split at found
  · cases found
  · next first text behind =>
    split at found
    · next closed =>
      cases found
      simp only [Bool.and_eq_true, Bool.or_eq_true, beq_iff_eq, List.isEmpty_iff] at closed
      have isQuote : first = quote := by
        have stops := List.head?_dropWhile_not (· != quote) spelling
        rw [behind] at stops
        simpa using stops
      refine ⟨spelling.takeWhile (· != quote), ?_, ?_, closed.1, closed.2⟩
      · rw [behind, isQuote] at whole
        exact whole.symm
      · intro member
        have other := List.mem_takeWhile_imp member
        simp at other
    · cases found

variable {leading : List Char}

theorem isWord_of_literalPrefix
    (isPrefix : literalPrefixes.contains (String.ofList leading)) : Lexeme.isWord leading := by
  have each : ∀ word ∈ literalPrefixes, Lexeme.isWord word.toList := by decide
  have word := each _ (List.contains_iff_mem.mp isPrefix)
  rwa [String.toList_ofList] at word

variable {word : List Char}

theorem isIdentifierCharacter_of_isWord (isWord : Lexeme.isWord word) :
    ∀ character ∈ word, isIdentifierCharacter character := by
  cases word with
  | nil => cases isWord
  | cons first others =>
    obtain ⟨starts, others⟩ := Bool.and_eq_true_iff.mp isWord
    exact List.forall_mem_cons.mpr
      ⟨isIdentifierCharacter_of_isIdentifierStart starts, List.all_eq_true.mp others⟩

theorem takeWhile_word (isWord : Lexeme.isWord word)
    (ends : ∀ character ∈ rest.head?, isIdentifierCharacter character = false) :
    (word ++ rest).takeWhile isIdentifierCharacter = word := by
  rw [List.takeWhile_append_of_pos (isIdentifierCharacter_of_isWord isWord)]
  cases rest with
  | nil => simp
  | cons first rest => simp [ends first rfl]

theorem word_run (isWord : Lexeme.isWord word) (ends : ∀ character ∈ rest.head?,
      isIdentifierCharacter character = false ∧ character ≠ '\'' ∧ character ≠ '"')
    (ahead : cursor.rest = word ++ rest) : Lexer.word.run cursor = .ok
      (match Keyword.ofSpelling? (String.ofList word) with
        | some keyword => .keyword keyword
        | none => .identifier (String.ofList word)) (cursor.past word.length) := by
  have found := takeWhile_word isWord fun character member => (ends character member).1
  have behind : (cursor.past word.length).rest = rest := by
    rw [Cursor.rest_past, ahead, List.drop_left]
  simp only [Lexer.word, EStateM.run_bind, EStateM.run_get, ahead, found, take_run, behind]
  split
  · exact absurd rfl (ends '"' rfl).2.2
  · exact absurd rfl (ends '\'' rfl).2.1
  · cases Keyword.ofSpelling? (String.ofList word) <;> rfl

theorem takeWhile_prefix {behind : List Char} (isPrefix : literalPrefixes.contains (String.ofList leading))
    (isQuote : isIdentifierCharacter quote = false) :
    (leading ++ quote :: behind).takeWhile isIdentifierCharacter = leading :=
  takeWhile_word (isWord_of_literalPrefix isPrefix) fun _ member => Option.some.inj member ▸ isQuote

theorem word_run_string (isPrefix : literalPrefixes.contains (String.ofList leading))
    (closed : quotedText '"' body = (body, true))
    (ahead : cursor.rest = leading ++ '"' :: (body ++ rest)) :
    Lexer.word.run cursor = .ok (.stringLiteral (String.ofList (leading ++ '"' :: body)))
      (cursor.past (leading ++ '"' :: body).length) := by
  have found : (leading ++ '"' :: (body ++ rest)).takeWhile isIdentifierCharacter = leading :=
    takeWhile_prefix isPrefix (by decide)
  have behind : (cursor.past leading.length).rest = '"' :: (body ++ rest) := by
    rw [Cursor.rest_past, ahead, List.drop_left]
  simp only [Lexer.word, EStateM.run_bind, EStateM.run_get, ahead, found, take_run, behind, isPrefix,
    stringLiteral_run closed _ behind]
  rw [String.ofList_append, List.length_append, List.length_cons, Cursor.past_add leading.length]

theorem word_run_char (isPrefix : literalPrefixes.contains (String.ofList leading))
    (closed : quotedText '\'' body = (body, true)) (notEmpty : body ≠ ['\''])
    (ahead : cursor.rest = leading ++ '\'' :: (body ++ rest)) :
    Lexer.word.run cursor = .ok (.charLiteral (String.ofList (leading ++ '\'' :: body)))
      (cursor.past (leading ++ '\'' :: body).length) := by
  have found : (leading ++ '\'' :: (body ++ rest)).takeWhile isIdentifierCharacter = leading :=
    takeWhile_prefix isPrefix (by decide)
  have behind : (cursor.past leading.length).rest = '\'' :: (body ++ rest) := by
    rw [Cursor.rest_past, ahead, List.drop_left]
  simp only [Lexer.word, EStateM.run_bind, EStateM.run_get, ahead, found, take_run, behind, isPrefix,
    charLiteral_run closed notEmpty _ behind]
  rw [String.ofList_append, List.length_append, List.length_cons, Cursor.past_add leading.length]

theorem mark_run {sign : Mark} (ends : ∀ character ∈ rest.head?, sign.endsBefore character)
    (ahead : cursor.rest = sign.spelling.toList ++ rest) :
    Lexer.mark.run cursor = .ok (.mark sign) (cursor.past sign.spelling.toList.length) := by
  have longest := Mark.longest?_append ends
  rw [← ahead] at longest
  simp only [Lexer.mark, EStateM.run_bind, EStateM.run_get]
  split
  · next nothing =>
    rw [nothing] at longest
    cases longest
  · next same =>
    rw [same] at longest
    simp only [longest, EStateM.run_bind, take_run, EStateM.run_pure]

/-! ## What spellings start with -/

def StartsToken : List Char → Prop
  | [] => False
  | first :: others => Text.isBlank first = false ∧ first ≠ '\\' ∧ first ≠ '#' ∧
      (first = '/' → ∀ next ∈ others.head?, next ≠ '/' ∧ next ≠ '*')

theorem skipOne_token (starts : StartsToken cursor.rest) : skipOne.run cursor = .ok false cursor := by
  simp only [skipOne, EStateM.run_bind, EStateM.run_get]
  split
  · rfl
  · next same => rw [same] at starts; exact absurd rfl starts.2.1
  · next same => rw [same] at starts; exact absurd rfl (starts.2.2.2 rfl '/' rfl).1
  · next same => rw [same] at starts; exact absurd rfl (starts.2.2.2 rfl '*' rfl).2
  · next first others _ _ _ same =>
    rw [same] at starts
    have notSign : (first == '#') = false := beq_eq_false_iff_ne.mpr starts.2.2.1
    simp only [starts.1, notSign, Bool.false_and, Bool.false_eq_true, if_false, EStateM.run_pure]

theorem of_isDigit {character : Char} (digit : character.isDigit) :
    isIdentifierStart character = false ∧ Text.isBlank character = false ∧
      character ∉ ['\\', '#', '/', '.', '\'', '"'] := by
  have each : ∀ code < 128, (Char.ofNat code).isDigit →
      isIdentifierStart (Char.ofNat code) = false ∧ Text.isBlank (Char.ofNat code) = false ∧
        Char.ofNat code ∉ ['\\', '#', '/', '.', '\'', '"'] := by decide +kernel
  obtain ⟨-, most⟩ := Bool.and_eq_true_iff.mp digit
  have ascii : character.toNat < 128 :=
    Nat.lt_of_le_of_lt (UInt32.le_iff_toNat_le.mp (of_decide_eq_true most)) (by decide)
  have known := each character.toNat ascii
  rw [Char.ofNat_toNat] at known
  exact known digit

theorem startsToken_word (isWord : Lexeme.isWord word) (rest : List Char) : StartsToken (word ++ rest) := by
  cases word with
  | nil => cases isWord
  | cons first others =>
    have starts := (Bool.and_eq_true_iff.mp isWord).1
    refine ⟨not_isBlank_of_isIdentifierStart starts, ?_, ?_, ?_⟩
    all_goals
      rintro rfl
      exact absurd starts (by decide)

theorem exists_of_isNumber (isNumber : Lexeme.isNumber spelling) :
    ∃ first others, spelling = first :: others ∧
      (first.isDigit ∨ first = '.' ∧ others.head?.any Char.isDigit) := by
  simp only [Lexeme.isNumber, Bool.and_eq_true] at isNumber
  cases spelling with
  | nil => cases isNumber.1.1
  | cons first others => exact ⟨first, others, rfl, by simpa using isNumber.1.1⟩

theorem startsToken_number (isNumber : Lexeme.isNumber spelling)
    (rest : List Char) : StartsToken (spelling ++ rest) := by
  obtain ⟨first, others, rfl, digit | ⟨rfl, -⟩⟩ := exists_of_isNumber isNumber
  · obtain ⟨-, notBlank, other⟩ := of_isDigit digit
    simp only [List.mem_cons, List.not_mem_nil, or_false, not_or] at other
    exact ⟨notBlank, other.1, other.2.1, fun same => absurd same other.2.2.1⟩
  · exact ⟨by decide, by decide, by decide, fun same => absurd same (by decide)⟩

theorem lexeme_run_number (isNumber : Lexeme.isNumber spelling)
    (ends : ∀ character ∈ rest.head?, isNumberCharacter character = false ∧ character ≠ '+' ∧ character ≠ '-')
    (ahead : cursor.rest = spelling ++ rest) :
    lexeme.run cursor = .ok (numberLexeme spelling) (cursor.past spelling.length) := by
  have scans := number_run isNumber ends ahead
  simp only [lexeme, EStateM.run_bind, EStateM.run_get]
  obtain ⟨first, others, rfl, digit | ⟨rfl, digit⟩⟩ := exists_of_isNumber isNumber
  · rw [ahead]
    simp only [List.cons_append, (of_isDigit digit).1, Bool.false_eq_true, if_false, digit, if_true, scans]
  · have notStart : isIdentifierStart '.' = false := by decide
    have notDigit : Char.isDigit '.' = false := by decide
    have next : (others ++ rest).head?.any Char.isDigit := by
      cases others with
      | nil => cases digit
      | cons next others => exact digit
    rw [ahead]
    simp only [List.cons_append, notStart, notDigit, next, Bool.false_eq_true, if_false,
      BEq.rfl, Bool.and_self, if_true, scans]

theorem lexeme_run_word (isWord : Lexeme.isWord word)
    (ahead : cursor.rest = word ++ rest) : lexeme.run cursor = Lexer.word.run cursor := by
  cases word with
  | nil => cases isWord
  | cons first others =>
    have starts := (Bool.and_eq_true_iff.mp isWord).1
    simp only [lexeme, EStateM.run_bind, EStateM.run_get, ahead, List.cons_append, starts, if_true]

def startsMark (sign : Mark) : Bool :=
  match sign.spelling.toList with
  | [] => false
  | first :: others =>
    !isIdentifierStart first && !first.isDigit && !Text.isBlank first &&
      !(['\\', '#', '\'', '"'].contains first) &&
      (first != '.' || sign == .dot || others.head? == some '.') &&
      (first != '/' || sign == .slash || others.head? == some '=')

theorem startsMark_all (sign : Mark) : startsMark sign := by
  cases sign <;> decide +kernel

theorem exists_of_mark (sign : Mark) : ∃ first others, sign.spelling.toList = first :: others ∧
    isIdentifierStart first = false ∧ first.isDigit = false ∧ Text.isBlank first = false ∧
      first ∉ ['\\', '#', '\'', '"'] ∧
      (first = '.' → sign = .dot ∨ others.head? = some '.') ∧
      (first = '/' → sign = .slash ∨ others.head? = some '=') := by
  have starts := startsMark_all sign
  unfold startsMark at starts
  split at starts
  · cases starts
  · next first others same =>
    simp only [Bool.and_eq_true, Bool.not_eq_true', Bool.or_eq_true, beq_iff_eq, bne_iff_ne] at starts
    obtain ⟨⟨⟨⟨⟨notStart, notDigit⟩, notBlank⟩, other⟩, dot⟩, slash⟩ := starts
    exact ⟨first, others, same, notStart, notDigit, notBlank, by simpa using other,
      by tauto, by tauto⟩

section Marks

variable {sign : Mark}

theorem startsToken_mark (ends : ∀ character ∈ rest.head?, sign.endsBefore character) :
    StartsToken (sign.spelling.toList ++ rest) := by
  obtain ⟨first, others, same, -, -, notBlank, other, -, slash⟩ := exists_of_mark sign
  simp only [List.mem_cons, List.not_mem_nil, or_false, not_or] at other
  rw [same]
  refine ⟨notBlank, other.1, other.2.1, fun isSlash next member => ?_⟩
  rcases slash isSlash with rfl | equals
  · obtain rfl : others = [] := by
      have spelled : Mark.slash.spelling.toList = ['/'] := by decide
      rw [spelled] at same
      exact (List.cons.inj same).2.symm
    have closes := ends next member
    simp only [Mark.endsBefore, Bool.and_eq_true, Bool.not_eq_true', BEq.rfl, Bool.true_and,
      Bool.or_eq_false_iff, beq_eq_false_iff_ne] at closes
    exact closes.1.2
  · cases others with
    | nil => cases equals
    | cons second others =>
      obtain rfl := Option.some.inj equals
      obtain rfl := Option.some.inj member
      exact ⟨by decide, by decide⟩

theorem lexeme_run_mark (ends : ∀ character ∈ rest.head?, sign.endsBefore character)
    (ahead : cursor.rest = sign.spelling.toList ++ rest) :
    lexeme.run cursor = .ok (.mark sign) (cursor.past sign.spelling.toList.length) := by
  have scans := mark_run ends ahead
  obtain ⟨first, others, same, notStart, notDigit, -, other, dot, -⟩ := exists_of_mark sign
  simp only [List.mem_cons, List.not_mem_nil, or_false, not_or] at other
  have noNumber : (first == '.' && (others ++ rest).head?.any Char.isDigit) = false := by
    by_contra number
    rw [Bool.not_eq_false, Bool.and_eq_true, beq_iff_eq] at number
    obtain ⟨isDot, digit⟩ := number
    rcases dot isDot with rfl | again
    · obtain rfl : others = [] := by
        have spelled : Mark.dot.spelling.toList = ['.'] := by decide
        rw [spelled] at same
        exact (List.cons.inj same).2.symm
      cases rest with
      | nil => cases digit
      | cons next rest =>
        have closes := ends next rfl
        simp only [Mark.endsBefore, Bool.and_eq_true, Bool.not_eq_true', BEq.rfl, Bool.true_and] at closes
        have isDigit : next.isDigit = true := digit
        rw [closes.2] at isDigit
        cases isDigit
    · cases others with
      | nil => cases again
      | cons second others =>
        obtain rfl := Option.some.inj again
        cases digit
  have notQuote : (first == '\'') = false := beq_eq_false_iff_ne.mpr other.2.2.1
  have notDouble : (first == '"') = false := beq_eq_false_iff_ne.mpr other.2.2.2
  simp only [lexeme, EStateM.run_bind, EStateM.run_get, ahead, same, List.cons_append, notStart,
    notDigit, noNumber, notQuote, notDouble, Bool.false_eq_true, if_false]
  rw [scans, same]

end Marks

/-! ## Lexemes -/

theorem keyword_spelled (keyword : Keyword) :
    Lexeme.isWord keyword.spelling.toList ∧ Keyword.ofSpelling? keyword.spelling = some keyword := by
  cases keyword <;> decide +kernel

theorem exists_of_charLiteral {spelling : String} (spelled : (Lexeme.charLiteral spelling).isSpelled) :
    ∃ body, Lexeme.quotedBody? '\'' spelling.toList = some body ∧ body ≠ ['\''] := by
  change (Lexeme.quotedBody? '\'' spelling.toList).any (· != ['\'']) at spelled
  cases found : Lexeme.quotedBody? '\'' spelling.toList with
  | none =>
    rw [found] at spelled
    cases spelled
  | some body =>
    rw [found] at spelled
    exact ⟨body, rfl, by simpa using spelled⟩

theorem startsToken_literal (isQuote : quote = '\'' ∨ quote = '"')
    (found : Lexeme.quotedBody? quote spelling = some body) (rest : List Char) :
    StartsToken (spelling ++ rest) := by
  obtain ⟨leading, rfl, -, rfl | isPrefix, -⟩ := quotedBody?_eq_some found
  · rcases isQuote with rfl | rfl
    · exact ⟨by decide, by decide, by decide, fun same => absurd same (by decide)⟩
    · exact ⟨by decide, by decide, by decide, fun same => absurd same (by decide)⟩
  · rw [List.append_assoc]
    exact startsToken_word (isWord_of_literalPrefix isPrefix) _

section Lexemes

variable {kind : Lexeme}

theorem startsToken_spelling (spelled : kind.isSpelled)
    (ends : ∀ character ∈ rest.head?, kind.endsBefore character) :
    StartsToken (kind.spelling.toList ++ rest) := by
  cases kind with
  | intLiteral spelling | floatLiteral spelling =>
    exact startsToken_number (Bool.and_eq_true_iff.mp spelled).1 rest
  | charLiteral spelling =>
    obtain ⟨body, found, -⟩ := exists_of_charLiteral spelled
    exact startsToken_literal (.inl rfl) found rest
  | stringLiteral spelling =>
    obtain ⟨body, found⟩ := Option.isSome_iff_exists.mp spelled
    exact startsToken_literal (.inr rfl) found rest
  | identifier name => exact startsToken_word (Bool.and_eq_true_iff.mp spelled).1 rest
  | keyword word => exact startsToken_word (keyword_spelled word).1 rest
  | mark sign => exact startsToken_mark ends
  | endOfFile => cases spelled

theorem lexeme_run_char {spelling : String} (spelled : (Lexeme.charLiteral spelling).isSpelled)
    (ahead : cursor.rest = spelling.toList ++ rest) :
    lexeme.run cursor = .ok (.charLiteral spelling) (cursor.past spelling.toList.length) := by
  obtain ⟨body, found, notEmpty⟩ := exists_of_charLiteral spelled
  obtain ⟨leading, same, -, rfl | isPrefix, closed⟩ := quotedBody?_eq_some found
  · obtain rfl : spelling = String.ofList ('\'' :: body) :=
      String.toList_inj.mp (same.trans String.toList_ofList.symm)
    rw [String.toList_ofList] at ahead ⊢
    have notStart : isIdentifierStart '\'' = false := by decide
    have notDigit : Char.isDigit '\'' = false := by decide
    have notDot : ('\'' == '.') = false := by decide
    simp only [lexeme, EStateM.run_bind, EStateM.run_get, ahead, List.cons_append, notStart, notDigit,
      notDot, Bool.false_and, Bool.false_eq_true, if_false, BEq.rfl, if_true,
      charLiteral_run closed notEmpty "" ahead, String.empty_append, List.length_cons]
  · rw [same, List.append_assoc, List.cons_append] at ahead
    rw [lexeme_run_word (isWord_of_literalPrefix isPrefix) ahead,
      word_run_char isPrefix closed notEmpty ahead, ← same, String.ofList_toList]

theorem lexeme_run_string {spelling : String} (spelled : (Lexeme.stringLiteral spelling).isSpelled)
    (ahead : cursor.rest = spelling.toList ++ rest) :
    lexeme.run cursor = .ok (.stringLiteral spelling) (cursor.past spelling.toList.length) := by
  obtain ⟨body, found⟩ := Option.isSome_iff_exists.mp spelled
  obtain ⟨leading, same, -, rfl | isPrefix, closed⟩ := quotedBody?_eq_some found
  · obtain rfl : spelling = String.ofList ('"' :: body) :=
      String.toList_inj.mp (same.trans String.toList_ofList.symm)
    rw [String.toList_ofList] at ahead ⊢
    have notStart : isIdentifierStart '"' = false := by decide
    have notDigit : Char.isDigit '"' = false := by decide
    have notDot : ('"' == '.') = false := by decide
    have notQuote : ('"' == '\'') = false := by decide
    simp only [lexeme, EStateM.run_bind, EStateM.run_get, ahead, List.cons_append, notStart, notDigit,
      notDot, notQuote, Bool.false_and, Bool.false_eq_true, if_false, BEq.rfl, if_true,
      stringLiteral_run closed "" ahead, String.empty_append, List.length_cons]
  · rw [same, List.append_assoc, List.cons_append] at ahead
    rw [lexeme_run_word (isWord_of_literalPrefix isPrefix) ahead,
      word_run_string isPrefix closed ahead, ← same, String.ofList_toList]

theorem lexeme_run (spelled : kind.isSpelled) (ends : ∀ character ∈ rest.head?, kind.endsBefore character)
    (ahead : cursor.rest = kind.spelling.toList ++ rest) :
    lexeme.run cursor = .ok kind (cursor.past kind.spelling.toList.length) := by
  cases kind with
  | intLiteral spelling | floatLiteral spelling =>
    obtain ⟨isNumber, same⟩ := Bool.and_eq_true_iff.mp spelled
    rw [lexeme_run_number isNumber (by simpa [Lexeme.endsBefore, and_assoc] using ends) ahead,
      beq_iff_eq.mp same]
    rfl
  | charLiteral spelling => exact lexeme_run_char spelled ahead
  | stringLiteral spelling => exact lexeme_run_string spelled ahead
  | identifier name =>
    obtain ⟨isWord, noKeyword⟩ := Bool.and_eq_true_iff.mp spelled
    rw [lexeme_run_word isWord ahead,
      word_run isWord (by simpa [Lexeme.endsBefore, and_assoc] using ends) ahead, String.ofList_toList,
      beq_iff_eq.mp noKeyword]
    rfl
  | keyword word =>
    obtain ⟨isWord, isKeyword⟩ := keyword_spelled word
    rw [lexeme_run_word isWord ahead,
      word_run isWord (by simpa [Lexeme.endsBefore, and_assoc] using ends) ahead, String.ofList_toList,
      isKeyword]
    rfl
  | mark sign => exact lexeme_run_mark ends ahead
  | endOfFile => cases spelled

end Lexemes

end Lexer

end InlineMacro
