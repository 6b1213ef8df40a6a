import InlineMacro.Proofs.Registry

/-!
# Preprocessing tokens

What a preprocessor sees of a text: first every backslash in front of the end of a line goes, with the
line end; then the text is cut into tokens. No token holds white space but a literal, so the tokens of
a text are those of its words, where a word ends in front of white space outside literals.
-/

set_option autoImplicit false

namespace InlineMacro

namespace Text

def spliced : List Char → List Char
  | [] => []
  | '\\' :: '\n' :: rest => spliced rest
  | character :: rest => character :: spliced rest

/-! ## Literals -/

def quoteMark (isString : Bool) : Char := if isString then '"' else '\''

/-- Where a character of a text stands. -/
inductive Quoting where
  | outside
  | inside (isString : Bool)
  | escaped (isString : Bool)
deriving DecidableEq, Repr

namespace Quoting

def next : Quoting → Char → Quoting
  | outside, '"' => inside true
  | outside, '\'' => inside false
  | outside, _ => outside
  | inside _, '\n' | escaped _, '\n' => outside
  | inside isString, '\\' => escaped isString
  | inside isString, character => if character = quoteMark isString then outside else inside isString
  | escaped isString, _ => inside isString

def closes : Quoting → List Char → Bool
  | state, [] => state = outside
  | state, character :: rest =>
    (if state = outside then character != '\\' else character != '\n') &&
      (state.next character).closes rest

end Quoting

def isClosed (text : String) : Bool := Quoting.outside.closes text.toList

/-! ## Words and tokens -/

def partsWords (character : Char) : Bool :=
  character.isWhitespace || character == '\x0b' || character == '\x0c'

def wordsBehind (state : Quoting) (current : List Char) : List Char → List (List Char)
  | [] => if current.isEmpty then [] else [current.reverse]
  | character :: rest =>
    if state = .outside ∧ partsWords character then
      (if current.isEmpty then [] else [current.reverse]) ++ wordsBehind .outside [] rest
    else wordsBehind (state.next character) (character :: current) rest

def tokenWords (text : List Char) : List (List Char) := wordsBehind .outside [] text

def firstToken : List Char → List Char
  | [] => []
  | '#' :: '#' :: _ => ['#', '#']
  | character :: rest =>
    if Lexer.isIdentifierStart character then
      let word := character :: rest.takeWhile Lexer.isIdentifierCharacter
      match Lexer.literalPrefixes.contains (String.ofList word),
          rest.dropWhile Lexer.isIdentifierCharacter with
      | true, '"' :: more => word ++ '"' :: (Lexer.quotedText '"' more).1
      | true, '\'' :: more => word ++ '\'' :: (Lexer.quotedText '\'' more).1
      | _, _ => word
    else if character = '"' ∨ character = '\'' then
      character :: (Lexer.quotedText character rest).1
    else if character.isDigit || (character == '.' && rest.head?.any Char.isDigit) then
      Lexer.numberText (character :: rest)
    else
      match Mark.longest? (character :: rest) with
      | some sign => sign.spelling.toList
      | none => [character]

def tokensWithin : Nat → List Char → List String
  | 0, _ | _, [] => []
  | budget + 1, word =>
    let token := firstToken word
    String.ofList token :: tokensWithin budget (word.drop token.length)

def tokens (text : List Char) : List String :=
  (tokenWords text).flatMap fun word => tokensWithin word.length word

example : tokens "do \x7b x ## y_1: ; \x7d while(0)".toList =
    ["do", "\x7b", "x", "##", "y_1", ":", ";", "\x7d", "while", "(", "0", ")"] := by
  decide +kernel

/-! ## Closed texts -/

namespace Quoting

variable {state : Quoting} {text rest : List Char}

theorem closes_append (first : state.closes text) (second : outside.closes rest) :
    state.closes (text ++ rest) := by
  induction text generalizing state with
  | nil =>
    obtain rfl : state = outside := by simpa [closes] using first
    exact second
  | cons character text ih =>
    rw [closes, Bool.and_eq_true] at first
    rw [List.cons_append, closes, Bool.and_eq_true]
    exact first.imp_right ih

theorem next_of_partsWords {character : Char} (parts : partsWords character) :
    outside.next character = outside := by
  unfold next
  split <;> first | rfl | cases parts | skip
  all_goals simp_all

theorem closes_of_line (closed : state.closes (text ++ '\n' :: rest)) :
    state.closes text ∧ outside.closes rest := by
  induction text generalizing state with
  | nil =>
    rw [List.nil_append, closes, Bool.and_eq_true] at closed
    by_cases isOutside : state = outside
    · subst isOutside
      exact ⟨rfl, closed.2⟩
    · rw [if_neg isOutside] at closed
      cases closed.1
  | cons character text ih =>
    rw [List.cons_append, closes, Bool.and_eq_true] at closed
    rw [closes, Bool.and_eq_true]
    exact ⟨⟨closed.1, (ih closed.2).1⟩, (ih closed.2).2⟩

theorem closes_of_carriageReturn (closed : state.closes (text ++ ['\r'])) : state.closes text := by
  induction text generalizing state with
  | nil =>
    rw [List.nil_append, closes, Bool.and_eq_true, closes, decide_eq_true_eq] at closed
    cases state with
    | outside => rfl
    | inside isString => cases isString <;> cases closed.2
    | escaped isString => cases closed.2
  | cons character text ih =>
    rw [List.cons_append, closes, Bool.and_eq_true] at closed
    rw [closes, Bool.and_eq_true]
    exact closed.imp_right ih

end Quoting

section Words

variable {text rest : List Char}

theorem wordsBehind_append {state : Quoting} (current : List Char) (closed : state.closes text)
    {parting : Char} (parts : partsWords parting) : wordsBehind state current (text ++ parting :: rest) =
      wordsBehind state current text ++ tokenWords rest := by
  induction text generalizing state current with
  | nil =>
    obtain rfl : state = .outside := by simpa [Quoting.closes] using closed
    rw [List.nil_append]
    conv_lhs => rw [wordsBehind, if_pos ⟨rfl, parts⟩]
    rfl
  | cons character text ih =>
    rw [Quoting.closes, Bool.and_eq_true] at closed
    rw [List.cons_append, wordsBehind, wordsBehind]
    split
    · next isParting =>
      obtain ⟨rfl, isParting⟩ := isParting
      rw [ih [] (Quoting.next_of_partsWords isParting ▸ closed.2), List.append_assoc]
    · exact ih _ closed.2

theorem tokens_append (closed : Quoting.outside.closes text) {parting : Char}
    (parts : partsWords parting) : tokens (text ++ parting :: rest) = tokens text ++ tokens rest := by
  rw [tokens, tokenWords, wordsBehind_append [] closed parts, List.flatMap_append]
  rfl

theorem dropCarriageReturn_closed (closed : Quoting.outside.closes text) :
    Quoting.outside.closes (dropCarriageReturn text) ∧ tokens (dropCarriageReturn text) = tokens text := by
  unfold dropCarriageReturn
  split
  · next isLast =>
    have same : text.dropLast ++ ['\r'] = text := List.dropLast_append_getLast? _ isLast
    rw [← same] at closed
    have shorter := Quoting.closes_of_carriageReturn closed
    refine ⟨shorter, ?_⟩
    conv_rhs => rw [← same, tokens_append shorter (by decide)]
    exact (List.append_nil _).symm
  · exact ⟨closed, rfl⟩

theorem not_mem_dropCarriageReturn {character : Char} (absent : character ∉ text) :
    character ∉ dropCarriageReturn text := by
  unfold dropCarriageReturn
  split
  · exact fun member => absent (List.dropLast_subset text member)
  · exact absent

theorem linesOfPieces_cons {pieces : List (List Char)} (more : pieces ≠ []) (line : List Char) :
    linesOfPieces (line :: pieces) = dropCarriageReturn line :: linesOfPieces pieces := by
  cases pieces with
  | nil => exact absurd rfl more
  | cons => rfl

theorem tokens_linesOfPieces (text : List Char) (closed : Quoting.outside.closes text) :
    (∀ line ∈ linesOfPieces (splitBy (· == '\n') text), Quoting.outside.closes line ∧ '\n' ∉ line) ∧
      (linesOfPieces (splitBy (· == '\n') text)).flatMap tokens = tokens text := by
  induction length : text.length using Nat.strongRecOn generalizing text with
  | ind count ih =>
    by_cases broken : '\n' ∈ text
    · obtain ⟨front, back, rfl, whole⟩ := List.eq_append_cons_of_mem broken
      obtain ⟨frontClosed, backClosed⟩ := Quoting.closes_of_line closed
      obtain ⟨stillClosed, sameTokens⟩ := dropCarriageReturn_closed frontClosed
      have shorter : back.length < count := by
        rw [← length, List.length_append, List.length_cons]
        omega
      obtain ⟨each, all⟩ := ih back.length shorter back backClosed rfl
      have parted : splitBy (· == '\n') (front ++ '\n' :: back) = front :: splitBy (· == '\n') back :=
        splitBy_word (by decide) fun character member =>
          beq_eq_false_iff_ne.mpr fun same => whole (same ▸ member)
      rw [parted, linesOfPieces_cons (splitBy_ne_nil _ _), List.forall_mem_cons, List.flatMap_cons,
        all, sameTokens, tokens_append frontClosed (by decide)]
      exact ⟨⟨⟨stillClosed, not_mem_dropCarriageReturn whole⟩, each⟩, rfl⟩
    · have one : splitBy (· == '\n') text = [text] := splitBy_whole fun character member =>
        beq_eq_false_iff_ne.mpr fun same => broken (same ▸ member)
      rw [one, linesOfPieces]
      split
      · next empty =>
        obtain rfl := List.isEmpty_iff.mp empty
        exact ⟨nofun, rfl⟩
      · exact ⟨List.forall_mem_singleton.mpr ⟨closed, broken⟩, List.append_nil _⟩

end Words

/-! ## Continued lines -/

section Splicing

variable {line rest : List Char}

theorem spliced_cons {character : Char} (kept : character = '\\' → rest.head? ≠ some '\n') :
    spliced (character :: rest) = character :: spliced rest := by
  rw [spliced]
  rintro more rfl rfl
  exact kept rfl rfl

theorem spliced_continued (whole : '\n' ∉ line) :
    spliced (line ++ ' ' :: '\\' :: '\n' :: rest) = line ++ ' ' :: spliced rest := by
  induction line with
  | nil => rfl
  | cons character line ih =>
    rw [List.mem_cons, not_or] at whole
    have kept : (line ++ ' ' :: '\\' :: '\n' :: rest).head? ≠ some '\n' := by
      cases line with
      | nil => exact nofun
      | cons first others => exact fun same => whole.2 (by simp_all)
    rw [List.cons_append, spliced_cons fun _ => kept, ih whole.2, List.cons_append]

theorem spliced_closed {state : Quoting} {text : List Char} (closed : state.closes text) :
    spliced text = text := by
  induction text generalizing state with
  | nil => rfl
  | cons character text ih =>
    rw [Quoting.closes, Bool.and_eq_true] at closed
    rw [spliced_cons ?_, ih closed.2]
    rintro rfl continues
    obtain ⟨others, rfl⟩ := List.head?_eq_some_iff.mp continues
    cases state <;> simp [Quoting.closes, Quoting.next] at closed

end Splicing

end Text

end InlineMacro
