import InlineMacro.Preprocessor.Linemarker
import InlineMacro.Token.Lexer
import Mathlib.Data.List.TakeDrop
import Mathlib.Data.List.TakeWhile

/-!
# The two readers of linemarkers

A linemarker is read by its form where inclusions are looked for, and word by word where tokens are
scanned. The first takes the backslashes out that stand before backslashes and quotes of the name,
the second takes the name as it is written up to the first quote. So both say the same of a line
exactly if no backslash of it stands before a backslash or a quote.
-/

set_option autoImplicit false

namespace InlineMacro

open Text (isBlank)

/-! ## Lists of characters -/

namespace Text

variable {blanks word rest : List Char}

theorem trimStart_append (areBlank : ∀ character ∈ blanks, isBlank character) :
    trimStart (blanks ++ rest) = trimStart rest := by
  induction blanks with
  | nil => rfl
  | cons blank blanks ih =>
    rw [List.forall_mem_cons] at areBlank
    rw [List.cons_append, trimStart, List.dropWhile_cons_of_pos areBlank.1]
    exact ih areBlank.2

theorem exists_trimStart (characters : List Char) : ∃ blanks : List Char,
    (∀ character ∈ blanks, isBlank character) ∧ characters = blanks ++ trimStart characters :=
  ⟨characters.takeWhile isBlank, fun _ => List.mem_takeWhile_imp, List.takeWhile_append_dropWhile.symm⟩

theorem trimEnd_append {last : Char} (notBlank : isBlank last = false) :
    trimEnd (word ++ last :: rest) = word ++ last :: trimEnd rest := by
  unfold trimEnd
  rw [List.reverse_append, List.reverse_cons, List.append_assoc, List.dropWhile_append]
  split
  · next none =>
    rw [List.isEmpty_iff.mp none]
    simp [notBlank]
  · simp

theorem splitBy_ne_nil (isSeparator : Char → Bool) (characters : List Char) :
    splitBy isSeparator characters ≠ [] := by
  cases characters with
  | nil => simp [splitBy]
  | cons character rest =>
    rw [splitBy]
    split
    · simp
    · split <;> simp

theorem words_blank {blank : Char} (isBlank : isBlank blank) : words (blank :: rest) = words rest := by
  unfold words
  rw [splitBy]
  split
  · next none => exact absurd none (splitBy_ne_nil _ _)
  · next piece pieces pieced => rw [pieced, if_pos isBlank, List.filter_cons_of_neg (by simp)]

theorem words_blanks (areBlank : ∀ character ∈ blanks, isBlank character) :
    words (blanks ++ rest) = words rest := by
  induction blanks with
  | nil => rfl
  | cons blank blanks ih =>
    rw [List.forall_mem_cons] at areBlank
    rw [List.cons_append, words_blank areBlank.1, ih areBlank.2]

variable {isSeparator : Char → Bool}

theorem splitBy_word {separator : Char}
    (separates : isSeparator separator) (whole : ∀ character ∈ word, isSeparator character = false) :
    splitBy isSeparator (word ++ separator :: rest) = word :: splitBy isSeparator rest := by
  induction word with
  | nil =>
    rw [List.nil_append, splitBy]
    split
    · next none => exact absurd none (splitBy_ne_nil _ _)
    · next pieced => rw [pieced, if_pos separates]
  | cons character word ih =>
    rw [List.forall_mem_cons] at whole
    rw [List.cons_append, splitBy, ih whole.2]
    simp [whole.1]

theorem splitBy_whole
    (whole : ∀ character ∈ word, isSeparator character = false) : splitBy isSeparator word = [word] := by
  induction word with
  | nil => rfl
  | cons character word ih =>
    rw [List.forall_mem_cons] at whole
    rw [splitBy, ih whole.2]
    simp [whole.1]

theorem words_word {blank : Char} (isBlank : Text.isBlank blank) (notEmpty : word ≠ [])
    (whole : ∀ character ∈ word, Text.isBlank character = false) :
    words (word ++ blank :: rest) = word :: words rest := by
  unfold words
  rw [splitBy_word isBlank whole, List.filter_cons_of_pos (by simpa using notEmpty)]

theorem mem_splitBy {characters : List Char} {character : Char} (member : character ∈ characters) :
    isSeparator character ∨ ∃ piece ∈ splitBy isSeparator characters, character ∈ piece := by
  induction characters with
  | nil => cases member
  | cons first rest ih =>
    rw [splitBy]
    split
    · next none => exact absurd none (splitBy_ne_nil _ _)
    · next piece pieces pieced =>
      rw [pieced] at ih
      rcases List.mem_cons.mp member with rfl | member
      · by_cases separates : isSeparator character
        · exact .inl separates
        · rw [if_neg separates]
          exact .inr ⟨_, List.mem_cons_self, List.mem_cons_self⟩
      · refine (ih member).imp_right ?_
        rintro ⟨other, among, inside⟩
        split
        · exact ⟨other, List.mem_cons_of_mem _ among, inside⟩
        · rcases List.mem_cons.mp among with rfl | among
          · exact ⟨_, List.mem_cons_self, List.mem_cons_of_mem _ inside⟩
          · exact ⟨other, List.mem_cons_of_mem _ among, inside⟩

theorem mem_words {characters : List Char} {character : Char} (member : character ∈ characters) :
    isBlank character ∨ ∃ word ∈ words characters, character ∈ word := by
  refine (mem_splitBy member).imp_right ?_
  rintro ⟨word, among, inside⟩
  exact ⟨word, List.mem_filter.mpr ⟨among, by simpa using List.ne_nil_of_mem inside⟩, inside⟩

theorem splitAtMost_word {separator : Char}
    (separates : isSeparator separator) (whole : ∀ character ∈ word, isSeparator character = false)
    (limit : Nat) : splitAtMost isSeparator (limit + 2) (word ++ separator :: rest) =
      word :: splitAtMost isSeparator (limit + 1) rest := by
  have inWord : ∀ character ∈ word, (!isSeparator character) = true :=
    fun character member => by rw [whole character member]; rfl
  rw [splitAtMost, List.span_eq_takeWhile_dropWhile, List.takeWhile_append_of_pos inWord,
    List.dropWhile_append_of_pos inWord]
  simp [separates]

theorem all_isDigit_of_boundedDecimal? {bound number : Nat} {digits : List Char}
    (decimals : ∀ digit ∈ digits, isDecimal digit) (given : boundedDecimal? bound digits = some number) :
    digits ≠ [] ∧ ∀ digit ∈ digits, digit.isDigit := by
  have value := (Option.filter_eq_some_iff.mp given).1
  cases digits with
  | nil => cases value
  | cons first others =>
    have notPlus : first ≠ '+' := by
      rintro rfl
      exact absurd (decimals '+' List.mem_cons_self) (by decide)
    refine ⟨List.cons_ne_nil _ _, ?_⟩
    split at value
    · next rest same => exact absurd (List.cons.inj same).1 notPlus
    · rw [decimal?, if_neg (by simp)] at value
      split at value
      · next allDigits => exact List.all_eq_true.mp allDigits
      · cases value

theorem boundedDecimal?_of_lt {bound other number : Nat} {characters : List Char}
    (given : boundedDecimal? bound characters = some number) (fits : number < other) :
    boundedDecimal? other characters = some number := by
  obtain ⟨value, -⟩ := Option.filter_eq_some_iff.mp given
  exact Option.filter_eq_some_iff.mpr ⟨value, decide_eq_true fits⟩

end Text

/-! ## The name of the file -/

namespace Linemarker

def hasEscape : List Char → Bool
  | [] => false
  | '\\' :: '\\' :: _ => true
  | '\\' :: '"' :: _ => true
  | _ :: rest => hasEscape rest

theorem hasEscape_cons {character : Char} (plain : character ≠ '\\') (rest : List Char) :
    hasEscape (character :: rest) = hasEscape rest := by
  rw [hasEscape]
  · exact fun _ isBackslash _ => plain isBackslash
  · exact fun _ isBackslash _ => plain isBackslash

theorem hasEscape_append {leading : List Char} (plain : '\\' ∉ leading) (rest : List Char) :
    hasEscape (leading ++ rest) = hasEscape rest := by
  induction leading with
  | nil => rfl
  | cons character leading ih =>
    rw [List.mem_cons, not_or] at plain
    rw [List.cons_append, hasEscape_cons (Ne.symm plain.1), ih plain.2]

theorem hasEscape_of_not_mem {characters : List Char} (plain : '\\' ∉ characters) :
    hasEscape characters = false := by
  simpa [hasEscape] using hasEscape_append plain []

/-- A name up to the quote that ends it, and what stands behind that quote. A character behind a
backslash belongs to the name whatever it is. -/
inductive Quotes : List Char → List Char → List Char → Prop where
  | last (rest : List Char) : Quotes ('"' :: rest) [] rest
  | escape {behind name rest : List Char} (escaped : Char) : Quotes behind name rest →
    Quotes ('\\' :: escaped :: behind) ('\\' :: escaped :: name) rest
  | plain {behind name rest : List Char} {character : Char} : character ≠ '"' → character ≠ '\\' →
    Quotes behind name rest → Quotes (character :: behind) (character :: name) rest

namespace Quotes

variable {characters name rest : List Char}

theorem of_quoted? (found : quoted? characters = some (name, rest)) : Quotes characters name rest := by
  fun_induction quoted? characters generalizing name with
  | case1 => cases found
  | case2 => cases found; exact .last _
  | case3 => cases found
  | case4 => cases found
  | case5 escaped behind _ ih =>
    obtain ⟨⟨inner, last⟩, found, same⟩ := Option.map_eq_some_iff.mp found
    cases same
    exact .escape escaped (ih found)
  | case6 character behind notQuote notEnd notEscape ih =>
    obtain ⟨⟨inner, last⟩, found, same⟩ := Option.map_eq_some_iff.mp found
    cases same
    refine .plain notQuote ?_ (ih found)
    rintro rfl
    cases behind with
    | nil => exact notEnd rfl rfl
    | cons escaped others => exact notEscape _ _ rfl rfl

theorem eq_append (quotes : Quotes characters name rest) : characters = name ++ '"' :: rest := by
  induction quotes with
  | last rest => rfl
  | escape escaped _ ih => rw [ih]; rfl
  | plain _ _ _ ih => rw [ih]; rfl

end Quotes

theorem hasEscape_escape {escaped : Char} (notBackslash : escaped ≠ '\\') (notQuote : escaped ≠ '"')
    (rest : List Char) : hasEscape ('\\' :: escaped :: rest) = hasEscape rest := by
  rw [hasEscape]
  · exact hasEscape_cons notBackslash rest
  · exact fun _ _ same => notBackslash (List.cons.inj same).1
  · exact fun _ _ same => notQuote (List.cons.inj same).1

theorem unescaped_cons {character : Char} (notBackslash : character ≠ '\\') (rest : List Char) :
    unescaped (character :: rest) = character :: unescaped rest := by
  rw [unescaped]
  · exact fun _ same _ => notBackslash same
  · exact fun _ same _ => notBackslash same

theorem unescaped_escape {escaped : Char} (notBackslash : escaped ≠ '\\') (notQuote : escaped ≠ '"')
    (rest : List Char) : unescaped ('\\' :: escaped :: rest) = '\\' :: escaped :: unescaped rest := by
  rw [unescaped, unescaped_cons notBackslash]
  · exact fun _ _ same => notBackslash (List.cons.inj same).1
  · exact fun _ _ same => notQuote (List.cons.inj same).1

section Names

variable {characters name rest : List Char}

theorem Quotes.hasEscape_eq (quotes : Quotes characters name rest) (plain : '\\' ∉ rest) :
    hasEscape characters = hasEscape name := by
  induction quotes with
  | last rest => exact (hasEscape_cons (by decide) rest).trans (hasEscape_of_not_mem plain)
  | escape escaped _ ih =>
    by_cases isBackslash : escaped = '\\'
    · rw [isBackslash]; rfl
    by_cases isQuote : escaped = '"'
    · rw [isQuote]; rfl
    rw [hasEscape_escape isBackslash isQuote, hasEscape_escape isBackslash isQuote, ih plain]
  | plain _ notBackslash _ ih =>
    rw [hasEscape_cons notBackslash, hasEscape_cons notBackslash, ih plain]

/-- A name in which no backslash stands before a backslash or a quote has no quote and stands for
itself. -/
theorem Quotes.unescaped_eq (quotes : Quotes characters name rest) (plain : hasEscape name = false) :
    '"' ∉ name ∧ unescaped name = name := by
  induction quotes with
  | last rest => exact ⟨List.not_mem_nil, rfl⟩
  | escape escaped _ ih =>
    have notBackslash : escaped ≠ '\\' := by
      rintro rfl
      cases plain
    have notQuote : escaped ≠ '"' := by
      rintro rfl
      cases plain
    rw [hasEscape_escape notBackslash notQuote] at plain
    obtain ⟨noQuote, stands⟩ := ih plain
    rw [unescaped_escape notBackslash notQuote, stands]
    exact ⟨by simp [noQuote, Ne.symm notQuote], rfl⟩
  | plain notQuote notBackslash _ ih =>
    rw [hasEscape_cons notBackslash] at plain
    obtain ⟨noQuote, stands⟩ := ih plain
    rw [unescaped_cons notBackslash, stands]
    exact ⟨by simp [noQuote, Ne.symm notQuote], rfl⟩

end Names

theorem quote_mem_unescaped {name : List Char} (member : '"' ∈ name) : '"' ∈ unescaped name := by
  fun_induction unescaped name with
  | case1 => cases member
  | case2 rest ih => simp_all
  | case3 rest ih => simp
  | case4 character rest _ _ ih =>
    rcases List.mem_cons.mp member with rfl | member
    · exact List.mem_cons_self
    · exact List.mem_cons_of_mem _ (ih member)

theorem length_unescaped (name : List Char) :
    (unescaped name).length + (hasEscape name).toNat ≤ name.length := by
  have atMost (rest : List Char) : (hasEscape rest).toNat ≤ 1 := Bool.toNat_le _
  fun_induction unescaped name with
  | case1 => exact Nat.le_refl 0
  | case2 rest ih | case3 rest ih => simp only [List.length_cons, hasEscape, Bool.toNat_true]; omega
  | case4 character rest notBackslashes notQuote ih =>
    rw [hasEscape]
    · simp only [List.length_cons]
      omega
    · exact notBackslashes
    · exact notQuote

/-- What a name stands for is what is written up to its first quote exactly if no backslash stands
before a backslash or a quote. -/
theorem takeWhile_eq_unescaped_iff {characters name rest : List Char}
    (quotes : quoted? characters = some (name, rest)) :
    name.takeWhile (· != '"') = unescaped name ↔ hasEscape name = false := by
  constructor
  · intro same
    by_contra escapes
    rw [Bool.not_eq_false] at escapes
    by_cases quoted : '"' ∈ name
    · have inFront : '"' ∈ name.takeWhile (· != '"') := same ▸ quote_mem_unescaped quoted
      exact absurd (List.mem_takeWhile_imp inFront) (by decide)
    · have whole : name.takeWhile (· != '"') = name := by
        rw [List.takeWhile_eq_self_iff]
        rintro character member
        exact bne_iff_ne.mpr fun same => quoted (same ▸ member)
      have shorter := length_unescaped name
      rw [escapes, Bool.toNat_true] at shorter
      rw [← same, whole] at shorter
      omega
  · intro plain
    obtain ⟨noQuote, stands⟩ := (Quotes.of_quoted? quotes).unescaped_eq plain
    rw [stands, List.takeWhile_eq_self_iff]
    rintro character member
    exact bne_iff_ne.mpr fun same => noQuote (same ▸ member)

/-! ## The parts of a marker -/

/-- How a marker is spelled: blanks, the number sign, perhaps the word `line` with the blanks behind
it, the number, the name between quotes, and the flags. -/
structure Spelling where
  leading : List Char
  beforeWord : List Char
  word : List Char
  number : List Char
  blank : Char
  beforeName : List Char
  name : List Char
  flags : List Char

namespace Spelling

def body (spelling : Spelling) : List Char :=
  spelling.word ++ (spelling.number ++ spelling.blank ::
    (spelling.beforeName ++ '"' :: (spelling.name ++ '"' :: spelling.flags)))

def line (spelling : Spelling) : List Char :=
  spelling.leading ++ '#' :: (spelling.beforeWord ++ spelling.body)

/-- A spelling has its form, and a marker is what it means. -/
structure Means (spelling : Spelling) (marker : Linemarker) : Prop where
  leading : ∀ character ∈ spelling.leading, isBlank character
  beforeWord : ∀ character ∈ spelling.beforeWord, isBlank character
  word : spelling.word = [] ∨ ∃ blank blanks, spelling.word = "line".toList ++ blank :: blanks ∧
    isBlank blank ∧ ∀ character ∈ blanks, isBlank character
  digits : ∀ digit ∈ spelling.number, Text.isDecimal digit
  number : Text.boundedDecimal? numberBound spelling.number = some marker.line
  blank : isBlank spelling.blank
  beforeName : ∀ character ∈ spelling.beforeName, isBlank character
  quoted : quoted? (spelling.name ++ '"' :: spelling.flags) = some (spelling.name, spelling.flags)
  flags : ∀ character ∈ spelling.flags, isBlank character ∨ Text.isDecimal character
  file : marker.file = String.ofList (unescaped spelling.name)

end Spelling

theorem mem_flags {characters : List Char} {flags : List Nat} (given : flags? characters = some flags) :
    ∀ character ∈ characters, isBlank character ∨ Text.isDecimal character := by
  unfold flags? at given
  dsimp only at given
  split at given
  · next decimals =>
    intro character member
    refine (Text.mem_words member).imp_right ?_
    rintro ⟨word, among, inside⟩
    have all := List.all_eq_true.mp (Bool.and_eq_true_iff.mp decimals).2 word among
    exact List.all_eq_true.mp all character inside
  · cases given

theorem exists_startsBlank {characters : List Char} (starts : startsBlank characters) :
    ∃ blank rest, characters = blank :: rest ∧ isBlank blank := by
  cases characters with
  | nil => cases starts
  | cons blank rest => exact ⟨blank, rest, rfl, starts⟩

theorem exists_withoutLineWord (characters : List Char) : ∃ word : List Char,
    characters = word ++ withoutLineWord characters ∧
      (word = [] ∨ ∃ blank blanks, word = "line".toList ++ blank :: blanks ∧
        isBlank blank ∧ ∀ character ∈ blanks, isBlank character) := by
  unfold withoutLineWord
  split
  · next rest =>
    split
    · next starts =>
      obtain ⟨blank, others, rfl, isBlank⟩ := exists_startsBlank starts
      obtain ⟨blanks, areBlank, same⟩ := Text.exists_trimStart others
      have trims : Text.trimStart (blank :: others) = Text.trimStart others :=
        List.dropWhile_cons_of_pos isBlank
      refine ⟨"line".toList ++ blank :: blanks, ?_, .inr ⟨blank, blanks, rfl, isBlank, areBlank⟩⟩
      rw [trims]
      simp [← same]
    · exact ⟨[], rfl, .inl rfl⟩
  · exact ⟨[], rfl, .inl rfl⟩

theorem exists_spelling {line : String} {marker : Linemarker}
    (parsed : parse? line = some marker) :
    ∃ spelling : Spelling, spelling.line = line.toList ∧ spelling.Means marker := by
  obtain ⟨leading, leadingBlank, whole⟩ := Text.exists_trimStart line.toList
  unfold parse? at parsed
  split at parsed
  case h_2 => cases parsed
  next rest trimmed =>
  rw [trimmed] at whole
  obtain ⟨beforeWord, beforeWordBlank, behindSign⟩ := Text.exists_trimStart rest
  obtain ⟨word, behindBlanks, isWord⟩ := exists_withoutLineWord (Text.trimStart rest)
  unfold afterSign? at parsed
  rw [List.span_eq_takeWhile_dropWhile] at parsed
  have behindWord := List.takeWhile_append_dropWhile (p := Text.isDecimal)
    (l := withoutLineWord (Text.trimStart rest))
  have digits : ∀ digit ∈ (withoutLineWord (Text.trimStart rest)).takeWhile Text.isDecimal,
      Text.isDecimal digit := fun _ => List.mem_takeWhile_imp
  generalize (withoutLineWord (Text.trimStart rest)).takeWhile Text.isDecimal = number at *
  generalize (withoutLineWord (Text.trimStart rest)).dropWhile Text.isDecimal = behind at *
  dsimp only at parsed
  split at parsed
  · cases parsed
  next starts =>
  obtain ⟨blank, others, rfl, isBlank⟩ := exists_startsBlank (by simpa using starts)
  obtain ⟨beforeName, beforeNameBlank, behindNumber⟩ := Text.exists_trimStart others
  have trims : Text.trimStart (blank :: others) = Text.trimStart others :=
    List.dropWhile_cons_of_pos isBlank
  rw [trims] at parsed
  split at parsed
  case h_2 => cases parsed
  next quotedText named =>
  obtain ⟨⟨name, flagText⟩, quotes, parsed⟩ := Option.bind_eq_some_iff.mp parsed
  obtain ⟨flags, flagged, parsed⟩ := Option.bind_eq_some_iff.mp parsed
  obtain ⟨value, valued, parsed⟩ := Option.bind_eq_some_iff.mp parsed
  obtain rfl := Option.some.inj parsed
  obtain rfl := (Quotes.of_quoted? quotes).eq_append
  refine ⟨⟨leading, beforeWord, word, number, blank, beforeName, name, flagText⟩, ?_, {
    leading := leadingBlank, beforeWord := beforeWordBlank, word := isWord, digits := digits
    number := valued, blank := isBlank, beforeName := beforeNameBlank, quoted := quotes
    flags := mem_flags flagged, file := rfl }⟩
  rw [whole, behindSign, behindBlanks, ← behindWord, behindNumber, named]
  rfl

namespace Spelling

variable {spelling : Spelling} {marker : Linemarker}

theorem Means.notBackslash {character : Char}
    (plain : isBlank character ∨ Text.isDecimal character) : character ≠ '\\' := by
  rintro rfl
  rcases plain with plain | plain
  · exact absurd plain (by decide)
  · exact absurd plain (by decide)

theorem Means.hasEscape_line (means : spelling.Means marker) :
    hasEscape spelling.line = hasEscape spelling.name := by
  have blanks {characters : List Char} (areBlank : ∀ character ∈ characters, isBlank character) :
      '\\' ∉ characters := fun member => notBackslash (.inl (areBlank _ member)) rfl
  have word : '\\' ∉ spelling.word := by
    rcases means.word with same | ⟨blank, others, same, isBlank, areBlank⟩
    · rw [same]
      exact List.not_mem_nil
    · rw [same, List.mem_append, List.mem_cons, not_or, not_or]
      exact ⟨by decide, (notBackslash (.inl isBlank)).symm, blanks areBlank⟩
  have digits : '\\' ∉ spelling.number :=
    fun member => notBackslash (.inr (means.digits _ member)) rfl
  have flags : '\\' ∉ spelling.flags := fun member => notBackslash (means.flags _ member) rfl
  rw [line, hasEscape_append (blanks means.leading), hasEscape_cons (by decide),
    hasEscape_append (blanks means.beforeWord), body, hasEscape_append word,
    hasEscape_append digits, hasEscape_cons (notBackslash (.inl means.blank)),
    hasEscape_append (blanks means.beforeName), hasEscape_cons (by decide),
    (Quotes.of_quoted? means.quoted).hasEscape_eq flags]

/-! ## Word by word -/

theorem Means.not_isBlank_of_digit {digit : Char} (isDigit : digit.isDigit) : isBlank digit = false := by
  obtain ⟨least, most⟩ := Bool.and_eq_true_iff.mp isDigit
  have bounds : 48 ≤ digit.toNat ∧ digit.toNat ≤ 57 :=
    ⟨UInt32.le_iff_toNat_le.mp (of_decide_eq_true least), UInt32.le_iff_toNat_le.mp (of_decide_eq_true most)⟩
  have notSpace : digit ≠ ' ' := by
    rintro rfl
    exact absurd bounds.1 (by decide)
  rw [isBlank, if_pos (by omega)]
  simp [notSpace]
  omega

theorem Means.exists_body (means : spelling.Means marker) : ∃ first rest,
    spelling.body = first :: rest ∧ isBlank first = false ∧ first ≠ '#' := by
  rcases means.word with none | ⟨blank, blanks, same, -, -⟩
  · obtain ⟨notEmpty, digits⟩ := Text.all_isDigit_of_boundedDecimal? means.digits means.number
    obtain ⟨first, rest, same⟩ := List.exists_cons_of_ne_nil notEmpty
    have isDigit : first.isDigit := digits first (same ▸ List.mem_cons_self)
    refine ⟨first, _, by rw [body, none, same]; rfl, not_isBlank_of_digit isDigit, ?_⟩
    rintro rfl
    cases isDigit
  · exact ⟨'l', _, by rw [body, same]; rfl, by decide, by decide⟩

theorem Means.trim_body (means : spelling.Means marker) : Text.trim (spelling.beforeWord ++ spelling.body) =
      spelling.word ++ (spelling.number ++ spelling.blank ::
        (spelling.beforeName ++ '"' :: (spelling.name ++ '"' :: Text.trimEnd spelling.flags))) := by
  have starts : Text.trimStart spelling.body = spelling.body := by
    obtain ⟨first, rest, same, notBlank, -⟩ := means.exists_body
    rw [same, Text.trimStart, List.dropWhile_cons_of_neg (by simp [notBlank])]
  rw [Text.trim, Text.trimStart_append means.beforeWord, starts, body]
  have quote : isBlank '"' = false := by decide
  have before (word : List Char) :
      Text.trimEnd (word ++ '"' :: spelling.flags) = word ++ '"' :: Text.trimEnd spelling.flags :=
    Text.trimEnd_append quote
  simpa only [List.append_assoc, List.cons_append] using
    before (spelling.word ++ spelling.number ++ spelling.blank :: spelling.beforeName ++
      '"' :: spelling.name)

theorem span_quote {before : List Char} (noQuote : '"' ∉ before) (behind : List Char) :
    (before ++ '"' :: behind).takeWhile (· != '"') = before ∧
      (before ++ '"' :: behind).dropWhile (· != '"') = '"' :: behind := by
  have skipped : ∀ character ∈ before, (character != '"') = true :=
    fun character member => bne_iff_ne.mpr fun same => noQuote (same ▸ member)
  rw [List.takeWhile_append_of_pos skipped, List.dropWhile_append_of_pos skipped]
  simp

theorem betweenQuotes?_append {before : List Char} (noQuote : '"' ∉ before) (name rest : List Char) :
    Lexer.betweenQuotes? (before ++ '"' :: (name ++ '"' :: rest)) =
      some (String.ofList (name.takeWhile (· != '"'))) := by
  obtain ⟨first, behind, cut, same⟩ : ∃ first behind, '"' ∉ first ∧
      name ++ '"' :: rest = first ++ '"' :: behind ∧ name.takeWhile (· != '"') = first := by
    by_cases quoted : '"' ∈ name
    · obtain ⟨first, behind, rfl, cut⟩ := List.eq_append_cons_of_mem quoted
      exact ⟨first, behind ++ '"' :: rest, cut, by simp, (span_quote cut behind).1⟩
    · refine ⟨name, rest, quoted, rfl, List.takeWhile_eq_self_iff.mpr fun character member => ?_⟩
      exact bne_iff_ne.mpr fun same => quoted (same ▸ member)
  rw [Lexer.betweenQuotes?, (span_quote noQuote _).2]
  dsimp only
  rw [List.span_eq_takeWhile_dropWhile, same.1, (span_quote cut behind).1, (span_quote cut behind).2, same.2]

/-- The words of the line name the number of the marker, and the text up to the first quote is the
name. -/
theorem Means.readDirective_line (means : spelling.Means marker) :
    ∃ rest, Lexer.readDirective ('#' :: (spelling.beforeWord ++ spelling.body)) =
        .linemarker spelling.number rest ∧ Lexer.betweenQuotes? rest =
        some (String.ofList (spelling.name.takeWhile (· != '"'))) := by
  obtain ⟨notEmpty, digits⟩ := Text.all_isDigit_of_boundedDecimal? means.digits means.number
  have whole : ∀ digit ∈ spelling.number, isBlank digit = false :=
    fun digit member => not_isBlank_of_digit (digits digit member)
  have noQuote {characters : List Char}
      (areBlank : ∀ character ∈ characters, isBlank character) : '"' ∉ characters :=
    fun member => absurd (areBlank _ member) (by decide)
  have unsigned : (spelling.beforeWord ++ spelling.body).dropWhile (· == '#') =
      spelling.beforeWord ++ spelling.body := by
    obtain ⟨first, rest, same, -, notSign⟩ := means.exists_body
    cases blanks : spelling.beforeWord with
    | nil => rw [same, List.nil_append, List.dropWhile_cons_of_neg (by simpa using notSign)]
    | cons blank others =>
      have isBlank := means.beforeWord blank (blanks ▸ List.mem_cons_self)
      refine List.dropWhile_cons_of_neg fun sign => ?_
      rw [beq_iff_eq.mp sign] at isBlank
      exact absurd isBlank (by decide)
  rw [Lexer.readDirective, List.dropWhile_cons_of_pos (by decide), unsigned, means.trim_body]
  rcases means.word with none | ⟨blank, blanks, same, isBlank, areBlank⟩
  · rw [none, List.nil_append, Text.words_word means.blank notEmpty whole]
    dsimp only
    rw [if_pos (List.all_eq_true.mpr digits), Text.splitAtMost_word means.blank whole]
    exact ⟨_, rfl, betweenQuotes?_append (noQuote means.beforeName) _ _⟩
  · have lineWord : ∀ character ∈ "line".toList, Text.isBlank character = false := by
      have noBlank : ("line".toList.all fun character => !Text.isBlank character) = true := by
        decide
      intro character member
      simpa using List.all_eq_true.mp noBlank character member
    rw [same, List.append_assoc, List.cons_append,
      Text.words_word isBlank (by decide) lineWord, Text.words_blanks areBlank,
      Text.words_word means.blank notEmpty whole]
    dsimp only
    rw [if_neg (by decide), if_pos (by decide), Text.splitAtMost_word isBlank lineWord]
    cases blanks with
    | nil =>
      rw [List.nil_append, Text.splitAtMost_word means.blank whole]
      exact ⟨_, rfl, betweenQuotes?_append (noQuote means.beforeName) _ _⟩
    | cons other blanks =>
      rw [List.forall_mem_cons] at areBlank
      rw [List.cons_append, ← List.nil_append (other :: _),
        Text.splitAtMost_word areBlank.1 fun _ member => absurd member List.not_mem_nil]
      have noQuoteBefore : '"' ∉ blanks ++ (spelling.number ++ spelling.blank ::
          spelling.beforeName) := by
        rw [List.mem_append, List.mem_append, List.mem_cons]
        rintro (member | member | same | member)
        · exact noQuote areBlank.2 member
        · exact absurd (digits _ member) (by decide)
        · exact absurd (same ▸ means.blank) (by decide)
        · exact noQuote means.beforeName member
      refine ⟨blanks ++ (spelling.number ++ spelling.blank :: (spelling.beforeName ++
        '"' :: (spelling.name ++ '"' :: Text.trimEnd spelling.flags))), rfl, ?_⟩
      simpa using betweenQuotes?_append noQuoteBefore spelling.name (Text.trimEnd spelling.flags)

end Spelling

end Linemarker

/-! ## Scanning the line -/

namespace Cursor

@[simp] theorem rest_advance (cursor : Cursor) : cursor.advance.rest = cursor.rest.tail := by
  unfold advance
  split <;> simp [*]

theorem rest_past (count : Nat) (cursor : Cursor) : (past count cursor).rest = cursor.rest.drop count := by
  induction count generalizing cursor with
  | zero => rfl
  | succ count ih => rw [past, ih, rest_advance, List.drop_tail]

theorem atLineStart_past (count : Nat) {cursor : Cursor} (starts : cursor.atLineStart) :
    (past count cursor).atLineStart := by
  induction count generalizing cursor with
  | zero => exact starts
  | succ count ih =>
    refine ih ?_
    unfold advance
    split <;> simp [starts]

end Cursor

namespace Lexer

variable {cursor : Cursor}

theorem skipOne_blank {blank : Char} {rest : List Char}
    (ahead : cursor.rest = blank :: rest) (isBlank : Text.isBlank blank) :
    skipOne.run cursor = .ok true cursor.advance := by
  have notBackslash : blank ≠ '\\' := by
    rintro rfl
    exact absurd isBlank (by decide)
  have notSlash : blank ≠ '/' := by
    rintro rfl
    exact absurd isBlank (by decide)
  simp [skipOne, take, ahead, notBackslash, notSlash, isBlank, Cursor.past, -bind_pure_comp]

variable {after : Cursor}

theorem skipOne_sign {rest : List Char} (ahead : cursor.rest = '#' :: rest)
    (starts : cursor.atLineStart) (directs : directive.run cursor = .ok () after) :
    skipOne.run cursor = .ok true after := by
  have notBlank : Text.isBlank '#' = false := by decide
  simp [skipOne, ahead, notBlank, starts, directs, -bind_pure_comp]

theorem skipOne_end (atEnd : cursor.rest = []) : skipOne.run cursor = .ok false cursor := by
  simp [skipOne, atEnd]

theorem skipWithin_blanks {blanks : List Char} (areBlank : ∀ blank ∈ blanks, Text.isBlank blank)
    (budget : Nat) {rest : List Char} (ahead : cursor.rest = blanks ++ rest) :
    (skipWithin (blanks.length + budget)).run cursor =
      (skipWithin budget).run (Cursor.past blanks.length cursor) := by
  induction blanks generalizing cursor with
  | nil => rw [List.length_nil, Nat.zero_add]; rfl
  | cons blank blanks ih =>
    rw [List.forall_mem_cons] at areBlank
    have step := skipOne_blank ahead areBlank.1
    have behind : cursor.advance.rest = blanks ++ rest := by
      rw [Cursor.rest_advance, ahead]
      rfl
    have next := ih areBlank.2 behind
    rw [List.length_cons, Nat.add_right_comm, skipWithin]
    rw [EStateM.run_bind, step]
    exact next

theorem skipTrivia_directive {blanks rest : List Char}
    (areBlank : ∀ blank ∈ blanks, Text.isBlank blank) {opening : Cursor}
    (ahead : opening.rest = blanks ++ '#' :: rest) (starts : opening.atLineStart)
    (directs : directive.run (Cursor.past blanks.length opening) = .ok () after)
    (atEnd : after.rest = []) : skipTrivia.run opening = .ok () after := by
  have aheadOfSign : (Cursor.past blanks.length opening).rest = '#' :: rest := by
    rw [Cursor.rest_past, ahead, List.drop_left]
  have sign := skipOne_sign aheadOfSign (Cursor.atLineStart_past _ starts) directs
  have stops := skipOne_end atEnd
  have passes := skipWithin_blanks areBlank (rest.length + 2) ahead
  have budget : opening.rest.length + 1 = blanks.length + (rest.length + 2) := by
    rw [ahead, List.length_append, List.length_cons]
    omega
  simp only [skipTrivia, EStateM.run_bind, EStateM.run_get, budget, passes]
  simp [skipWithin, sign, stops]

theorem tokens_atEnd {opening : Cursor} (skips : skipTrivia.run opening = .ok () after)
    (atEnd : after.rest = []) :
    tokens.run opening = .ok [.endAt after.location] { after with atLineStart := false } := by
  simp [tokens, tokensWithin, next, skips, lexeme, atEnd, Cursor.location, Token.endAt, Span.point,
    -bind_pure_comp]

theorem directive_marker {spelling : Linemarker.Spelling} {marker : Linemarker}
    (means : spelling.Means marker) (fits : marker.line < Text.lineBound) {behind : List Char}
    (ahead : cursor.rest = '#' :: (spelling.beforeWord ++ spelling.body) ++ '\n' :: behind)
    (oneLine : '\n' ∉ spelling.beforeWord ++ spelling.body) : ∃ after : Cursor,
      directive.run cursor = .ok () after ∧ after.rest = behind ∧ after.line = marker.line ∧
        after.file = String.ofList (spelling.name.takeWhile (· != '"')) := by
  have plain : ∀ character ∈ '#' :: (spelling.beforeWord ++ spelling.body),
      (character != '\n') = true := by
    intro character member
    rcases List.mem_cons.mp member with rfl | member
    · decide
    · exact bne_iff_ne.mpr fun same => oneLine (same ▸ member)
  have line : cursor.rest.takeWhile (· != '\n') =
      '#' :: (spelling.beforeWord ++ spelling.body) := by
    rw [ahead, List.takeWhile_append_of_pos plain, List.takeWhile_cons_of_neg (by decide),
      List.append_nil]
  obtain ⟨rest, directs, named⟩ := means.readDirective_line
  have value := Text.boundedDecimal?_of_lt means.number fits
  have left : (Cursor.past (('#' :: (spelling.beforeWord ++ spelling.body)).length + 1)
      cursor).rest = behind := by
    rw [Cursor.rest_past, ahead, List.drop_append]
    simp
  refine ⟨{ Cursor.past (('#' :: (spelling.beforeWord ++ spelling.body)).length + 1) cursor with
    file := String.ofList (spelling.name.takeWhile (· != '"')), line := marker.line },
    ?_, left, rfl, rfl⟩
  rw [directive]
  simp [line, directs, value, named]

end Lexer

/-- A line that is read as a marker is scanned without a token, and leaves its number behind. It
leaves the name of its file exactly if no backslash stands before a backslash or a quote in it. -/
theorem Linemarker.scanned_alike {line : String} {marker : Linemarker}
    (parsed : Linemarker.parse? line = some marker) (oneLine : '\n' ∉ line.toList)
    (fits : marker.line < Text.lineBound) (file : String) : ∃ cursor : Cursor,
      Lexer.tokens.run (.ofText (line ++ "\n") file) = .ok [.endAt cursor.location] cursor ∧
        cursor.rest = [] ∧ cursor.line = marker.line ∧
        (cursor.file = marker.file ↔ Linemarker.hasEscape line.toList = false) := by
  obtain ⟨spelling, spelled, means⟩ := Linemarker.exists_spelling parsed
  have ahead : (Cursor.ofText (line ++ "\n") file).rest = spelling.leading ++
      '#' :: ((spelling.beforeWord ++ spelling.body) ++ ['\n']) := by
    show (line ++ "\n").toList = _
    rw [String.toList_append, ← spelled, Linemarker.Spelling.line]
    simp
  have oneLineBehind : '\n' ∉ spelling.beforeWord ++ spelling.body := fun member =>
    oneLine (spelled ▸ List.mem_append_right _ (List.mem_cons_of_mem _ member))
  obtain ⟨after, directs, left, number, name⟩ := Lexer.directive_marker means fits
    (by rw [Cursor.rest_past, ahead, List.drop_left, List.cons_append]) oneLineBehind
  have skips := Lexer.skipTrivia_directive means.leading ahead rfl directs left
  have scans := Lexer.tokens_atEnd skips left
  refine ⟨{ after with atLineStart := false }, scans, left, number, ?_⟩
  show after.file = marker.file ↔ _
  rw [name, means.file, String.ofList_inj, ← spelled, means.hasEscape_line]
  exact Linemarker.takeWhile_eq_unescaped_iff means.quoted

theorem Linemarker.scanned_alike_flagged :
    Linemarker.parse? "#line 7 \"lib/a b.h\" 1 3" = some ⟨7, "lib/a b.h", [1, 3]⟩ ∧
      ∃ cursor : Cursor, Lexer.tokens.run (.ofText ("#line 7 \"lib/a b.h\" 1 3" ++ "\n")) =
          .ok [.endAt cursor.location] cursor ∧ cursor.rest = [] ∧ cursor.line = 7 ∧
        (cursor.file = "lib/a b.h" ↔
          Linemarker.hasEscape "#line 7 \"lib/a b.h\" 1 3".toList = false) := by
  have parsed : Linemarker.parse? "#line 7 \"lib/a b.h\" 1 3" = some ⟨7, "lib/a b.h", [1, 3]⟩ := by
    decide +kernel
  exact ⟨parsed, Linemarker.scanned_alike parsed (by decide +kernel) (by decide) "<input>"⟩

/-- The lexer keeps the backslashes that stand before backslashes. -/
theorem Linemarker.not_scanned_alike :
    ¬ ∀ (line : String) (marker : Linemarker), Linemarker.parse? line = some marker →
      '\n' ∉ line.toList → marker.line < Text.lineBound → ∃ cursor : Cursor,
        Lexer.tokens.run (.ofText (line ++ "\n")) = .ok [.endAt cursor.location] cursor ∧
          cursor.line = marker.line ∧ cursor.file = marker.file := by
  intro alike
  have parsed : Linemarker.parse? "# 1 \"a\\\\b.c\"" = some ⟨1, "a\\b.c", []⟩ := by decide +kernel
  obtain ⟨cursor, scans, -, same⟩ := alike _ _ parsed (by decide +kernel) (by decide)
  have tokens : Lexer.tokens.run' (.ofText ("# 1 \"a\\\\b.c\"" ++ "\n")) =
      some [.endAt ⟨"a\\\\b.c", 1, 1⟩] := by decide +kernel
  delta EStateM.run' at tokens
  rw [scans] at tokens
  have name := congrArg (·.span.start.file) (List.cons.inj (Option.some.inj tokens)).1
  exact absurd (name.symm.trans same) (by decide)

end InlineMacro
