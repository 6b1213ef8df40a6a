import InlineMacro.Proofs.Token.Linemarkers
import Mathlib.Data.List.Basic

/-!
# Linemarkers as the preprocessor writes them

A marker that is written down is read as the marker again. In its name each backslash and each quote has
a backslash in front. Reading takes these out from the left to the right, which comes to the same as
first making one of every two backslashes, and then a quote of every quote with a backslash in front.
-/

set_option autoImplicit false

namespace InlineMacro

/-! ## Numbers in decimal -/

namespace Text

variable {number bound : Nat} {digit : Char}

theorem isDigit_of_mem_digits (member : digit ∈ Nat.toDigits 10 number) : digit.isDigit :=
  Nat.isDigit_of_mem_toDigits (by decide) (by decide) member

theorem isDecimal_of_isDigit (isDigit : digit.isDigit) : isDecimal digit := by
  have small : digit.toNat < 0x80 := by
    simp only [Char.isDigit, Bool.and_eq_true, decide_eq_true_eq, UInt32.le_iff_toNat_le] at isDigit
    exact Nat.lt_of_le_of_lt isDigit.2 (by decide)
  rw [isDecimal, if_pos small]
  exact isDigit

theorem isBlank_of_isDigit (isDigit : digit.isDigit) : isBlank digit = false := by
  simp only [Char.isDigit, Bool.and_eq_true, decide_eq_true_eq, UInt32.le_iff_toNat_le] at isDigit
  have least : 48 ≤ digit.toNat := isDigit.1
  have most : digit.toNat ≤ 57 := isDigit.2
  have notSpace : digit ≠ ' ' := by
    rintro rfl
    exact absurd least (by decide)
  rw [isBlank, if_pos (by omega)]
  simp [notSpace]
  omega

theorem digits_ne_nil (number : Nat) : Nat.toDigits 10 number ≠ [] :=
  List.ne_nil_of_length_pos Nat.length_toDigits_pos

theorem boundedDecimal?_digits (fits : number < bound) :
    boundedDecimal? bound (Nat.toDigits 10 number) = some number := by
  have noSign : ∀ rest, Nat.toDigits 10 number ≠ '+' :: rest := by
    intro rest same
    have isDigit : ('+' : Char).isDigit := isDigit_of_mem_digits (same ▸ List.mem_cons_self)
    cases isDigit
  have value : decimal? (Nat.toDigits 10 number) = some number := by
    rw [decimal?, if_neg (by simp), if_pos (List.all_eq_true.mpr fun _ => isDigit_of_mem_digits)]
    exact congrArg some (Nat.ofDigitChars_toDigits (by decide) (by decide))
  unfold boundedDecimal?
  split
  · next rest same => exact absurd same (noSign rest)
  · dsimp only
    rw [value, Option.filter_some, if_pos (decide_eq_true fits)]

theorem words_whole {word : List Char} (notEmpty : word ≠ [])
    (whole : ∀ character ∈ word, isBlank character = false) : words word = [word] := by
  rw [words, splitBy_whole whole, List.filter_cons_of_pos (by simpa using notEmpty), List.filter_nil]

end Text

namespace Linemarker

/-! ## The name between quotes -/

def escaped : List Char → List Char
  | [] => []
  | character :: rest =>
    if character = '\\' ∨ character = '"' then '\\' :: character :: escaped rest
    else character :: escaped rest

theorem quoted?_cons {character : Char} (notQuote : character ≠ '"') (notBackslash : character ≠ '\\')
    (rest : List Char) :
    quoted? (character :: rest) = (quoted? rest).map fun (name, rest) => (character :: name, rest) := by
  rw [quoted?]
  · exact notQuote
  · exact fun isBackslash _ => notBackslash isBackslash
  · exact fun _ _ isBackslash _ => notBackslash isBackslash

theorem quoted?_escape {character : Char} (notBreak : character ≠ '\n') (rest : List Char) :
    quoted? ('\\' :: character :: rest) =
      (quoted? rest).map fun (name, rest) => ('\\' :: character :: name, rest) := by
  rw [quoted?, if_neg notBreak]

theorem quoted?_escaped (name rest : List Char) :
    quoted? (escaped name ++ '"' :: rest) = some (escaped name, rest) := by
  induction name with
  | nil => rfl
  | cons character name ih =>
    rw [escaped]
    split
    · next special =>
      have notBreak : character ≠ '\n' := by
        rintro rfl
        rcases special with same | same <;> cases same
      rw [List.cons_append, List.cons_append, quoted?_escape notBreak, ih]
      rfl
    · next plain =>
      rw [not_or] at plain
      rw [List.cons_append, quoted?_cons plain.2 plain.1, ih]
      rfl

theorem unescaped_escaped (name : List Char) : unescaped (escaped name) = name := by
  induction name with
  | nil => rfl
  | cons character name ih =>
    rw [escaped]
    split
    · next special => rcases special with rfl | rfl <;> rw [unescaped, ih]
    · next plain =>
      rw [not_or] at plain
      rw [unescaped_cons plain.1, ih]

/-! ## Reading by two replacements -/

def replacePairs (first second replacement : Char) : List Char → List Char
  | [] => []
  | [character] => [character]
  | character :: next :: rest =>
    if character = first ∧ next = second then replacement :: replacePairs first second replacement rest
    else character :: replacePairs first second replacement (next :: rest)

section Replacing

variable {first second replacement character : Char}

theorem replacePairs_pair (rest : List Char) :
    replacePairs first second replacement (first :: second :: rest) =
      replacement :: replacePairs first second replacement rest := by
  rw [replacePairs, if_pos ⟨rfl, rfl⟩]

theorem replacePairs_cons {rest : List Char} (noPair : rest.head? ≠ some second) :
    replacePairs first second replacement (character :: rest) =
      character :: replacePairs first second replacement rest := by
  cases rest with
  | nil => rfl
  | cons next rest =>
    rw [replacePairs, if_neg]
    rintro ⟨-, rfl⟩
    exact noPair rfl

theorem replacePairs_other (other : character ≠ first) (rest : List Char) :
    replacePairs first second replacement (character :: rest) =
      character :: replacePairs first second replacement rest := by
  cases rest with
  | nil => rfl
  | cons next rest =>
    rw [replacePairs, if_neg]
    rintro ⟨isFirst, -⟩
    exact other isFirst

end Replacing

abbrev halveBackslashes : List Char → List Char := replacePairs '\\' '\\' '\\'

abbrev bareQuotes : List Char → List Char := replacePairs '\\' '"' '"'

theorem head?_halveBackslashes (characters : List Char) :
    (halveBackslashes characters).head? = characters.head? := by
  match characters with
  | [] | [_] => rfl
  | character :: next :: rest =>
    rw [halveBackslashes, replacePairs]
    split
    · next isPair => rw [isPair.1]; rfl
    · rfl

theorem Quotes.head?_ne {characters name rest : List Char} (quotes : Quotes characters name rest) :
    name.head? ≠ some '"' := by
  cases quotes with
  | last | escape => nofun
  | plain notQuote => exact fun isQuote => notQuote (Option.some.inj isQuote)

/-- In every name between quotes the two replacements, one after the other, do what reading from the
left to the right does: where a quote follows, the number of backslashes is odd. -/
theorem Quotes.unescaped_eq_replaced {characters name rest : List Char}
    (quotes : Quotes characters name rest) : unescaped name = bareQuotes (halveBackslashes name) := by
  induction quotes with
  | last rest => rfl
  | @escape behind inner _ escaped quotes ih =>
    by_cases isBackslash : escaped = '\\'
    · subst isBackslash
      have noQuote : (halveBackslashes inner).head? ≠ some '"' := by
        rw [head?_halveBackslashes]
        exact quotes.head?_ne
      rw [unescaped, halveBackslashes, replacePairs_pair, bareQuotes, replacePairs_cons noQuote, ih]
    have notPair : (escaped :: inner).head? ≠ some '\\' := fun same => isBackslash (Option.some.inj same)
    have halved : halveBackslashes ('\\' :: escaped :: inner) = '\\' :: escaped :: halveBackslashes inner := by
      rw [halveBackslashes, replacePairs_cons notPair, replacePairs_other isBackslash]
    rw [halved]
    by_cases isQuote : escaped = '"'
    · subst isQuote
      rw [unescaped, bareQuotes, replacePairs_pair, ih]
    · have notQuoted : (escaped :: halveBackslashes inner).head? ≠ some '"' :=
        fun same => isQuote (Option.some.inj same)
      rw [bareQuotes, replacePairs_cons notQuoted, replacePairs_other isBackslash, ← bareQuotes, ← ih,
        unescaped_escape isBackslash isQuote]
  | plain _ notBackslash _ ih =>
    rw [unescaped_cons notBackslash, halveBackslashes, replacePairs_other notBackslash, bareQuotes,
      replacePairs_other notBackslash, ih]

/-! ## The whole marker -/

def flagText (flags : List Nat) : List Char :=
  flags.flatMap fun flag => ' ' :: Nat.toDigits 10 flag

def text (marker : Linemarker) : String :=
  String.ofList ('#' :: ' ' :: (Nat.toDigits 10 marker.line ++
    ' ' :: '"' :: (escaped marker.file.toList ++ '"' :: flagText marker.flags)))

example : text ⟨12, "a\\b\".h", [1, 3]⟩ = "# 12 \"a\\\\b\\\".h\" 1 3" := by decide +kernel

theorem words_flagText (flags : List Nat) : Text.words (flagText flags) = flags.map (Nat.toDigits 10) := by
  have isBlank : Text.isBlank ' ' := by decide
  induction flags with
  | nil => rfl
  | cons flag flags ih =>
    have whole (digit : Char) (member : digit ∈ Nat.toDigits 10 flag) : Text.isBlank digit = false :=
      Text.isBlank_of_isDigit (Text.isDigit_of_mem_digits member)
    rw [flagText, List.flatMap_cons, List.cons_append, Text.words_blank isBlank, List.map_cons]
    cases flags with
    | nil =>
      rw [List.flatMap_nil, List.append_nil]
      exact Text.words_whole (Text.digits_ne_nil flag) whole
    | cons next flags =>
      rw [← flagText, flagText, List.flatMap_cons, List.cons_append,
        Text.words_word isBlank (Text.digits_ne_nil flag) whole]
      rw [flagText, List.flatMap_cons, List.cons_append, Text.words_blank isBlank] at ih
      rw [ih]

theorem flags?_flagText {flags : List Nat} (fit : ∀ flag ∈ flags, flag < flagBound) :
    flags? (flagText flags) = some flags := by
  have starts : (flagText flags).isEmpty || startsBlank (flagText flags) := by
    cases flags with
    | nil => rfl
    | cons flag flags => rfl
  have decimals : (flags.map (Nat.toDigits 10)).all (·.all Text.isDecimal) := by
    simp only [List.all_map, List.all_eq_true, Function.comp]
    intro flag _ digit member
    exact Text.isDecimal_of_isDigit (Text.isDigit_of_mem_digits member)
  have values : (flags.map (Nat.toDigits 10)).filterMap (Text.boundedDecimal? flagBound) = flags := by
    rw [List.filterMap_map]
    have each : flags.filterMap (Text.boundedDecimal? flagBound ∘ Nat.toDigits 10) = flags.filterMap some :=
      List.filterMap_congr fun flag member => Text.boundedDecimal?_digits (fit flag member)
    rw [each, List.filterMap_some]
  unfold flags?
  dsimp only
  rw [words_flagText, starts, decimals, Bool.and_true, if_pos rfl, values]

/-- A marker with a line of 64 bits and flags of eight is read as it was written, whatever the name of
its file. In the name as it was written, the two replacements give the same. -/
theorem parse?_text (marker : Linemarker) (lineFits : marker.line < numberBound)
    (flagsFit : ∀ flag ∈ marker.flags, flag < flagBound) :
    parse? marker.text = some marker ∧
      String.ofList (bareQuotes (halveBackslashes (escaped marker.file.toList))) = marker.file := by
  have named := quoted?_escaped marker.file.toList (flagText marker.flags)
  have stands := unescaped_escaped marker.file.toList
  refine ⟨?_, by rw [← (Quotes.of_quoted? named).unescaped_eq_replaced, stands, String.ofList_toList]⟩
  have isBlank : Text.isBlank ' ' := by decide
  have areDigits (digit : Char) : digit ∈ Nat.toDigits 10 marker.line → digit.isDigit :=
    Text.isDigit_of_mem_digits
  obtain ⟨first, others, digits⟩ := List.exists_cons_of_ne_nil (Text.digits_ne_nil marker.line)
  have firstDigit : first.isDigit := areDigits first (digits ▸ List.mem_cons_self)
  have trims (rest : List Char) :
      Text.trimStart (' ' :: (Nat.toDigits 10 marker.line ++ rest)) = Nat.toDigits 10 marker.line ++ rest := by
    rw [Text.trimStart, List.dropWhile_cons_of_pos isBlank, digits, List.cons_append,
      List.dropWhile_cons_of_neg (by simp [Text.isBlank_of_isDigit firstDigit])]
  have noWord (rest : List Char) :
      withoutLineWord (Nat.toDigits 10 marker.line ++ rest) = Nat.toDigits 10 marker.line ++ rest := by
    rw [digits, List.cons_append, withoutLineWord]
    rintro behind same
    have isDigit : ('l' : Char).isDigit := (List.cons.inj same).1 ▸ firstDigit
    cases isDigit
  have spans (rest : List Char) : (Nat.toDigits 10 marker.line ++ ' ' :: rest).span Text.isDecimal =
      (Nat.toDigits 10 marker.line, ' ' :: rest) := by
    have decimals (digit : Char) (member : digit ∈ Nat.toDigits 10 marker.line) : Text.isDecimal digit :=
      Text.isDecimal_of_isDigit (areDigits digit member)
    have ends : Text.isDecimal ' ' = false := by decide
    rw [List.span_eq_takeWhile_dropWhile, List.takeWhile_append_of_pos decimals,
      List.dropWhile_append_of_pos decimals]
    simp [ends]
  have behindSign : afterSign? (' ' :: (Nat.toDigits 10 marker.line ++
      ' ' :: '"' :: (escaped marker.file.toList ++ '"' :: flagText marker.flags))) = some marker := by
    unfold afterSign?
    rw [trims, noWord, spans]
    dsimp only
    rw [if_neg (by simp [startsBlank, isBlank]), Text.trimStart, List.dropWhile_cons_of_pos isBlank,
      List.dropWhile_cons_of_neg (by decide)]
    show (quoted? (escaped marker.file.toList ++ '"' :: flagText marker.flags) >>= fun found =>
      flags? found.2 >>= fun flags => Text.boundedDecimal? numberBound (Nat.toDigits 10 marker.line) >>=
        fun line => some ⟨line, String.ofList (unescaped found.1), flags⟩) = some marker
    simp only [named, flags?_flagText flagsFit, Text.boundedDecimal?_digits lineFits, stands,
      Option.bind_eq_bind, Option.bind_some, String.ofList_toList]
  rw [parse?, text, String.toList_ofList, Text.trimStart, List.dropWhile_cons_of_neg (by decide)]
  exact behindSign

/-- The last line that can be counted, and a name in which backslashes stand before quotes and at the
end. -/
theorem parse?_text_of_backslashes :
    let marker : Linemarker := ⟨18446744073709551615, "a\\\\\"b\\\" c\\", [1, 3, 255]⟩
    marker.line < numberBound ∧ (∀ flag ∈ marker.flags, flag < flagBound) ∧
      parse? marker.text = some marker ∧
        String.ofList (bareQuotes (halveBackslashes (escaped marker.file.toList))) = marker.file :=
  ⟨by decide, by decide, parse?_text _ (by decide) (by decide)⟩

end Linemarker

end InlineMacro
