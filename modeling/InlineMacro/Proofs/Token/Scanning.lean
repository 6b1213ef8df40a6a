import InlineMacro.Proofs.Token.Spelling

/-!
# The tokens of a text that is put together

A text of spellings, each in front of something that does not go on with it, and blanks between them
where one likes, has the lexemes of these spellings for tokens, and the end of the file behind them.
-/

set_option autoImplicit false

namespace InlineMacro

/-- Characters are spellings of lexemes and blanks. -/
inductive Scans : List Char → List Lexeme → Prop where
  | nil : Scans [] []
  | blank {character : Char} {text : List Char} {lexemes : List Lexeme}
    (isBlank : Text.isBlank character) (behind : Scans text lexemes) :
    Scans (character :: text) lexemes
  | lexeme {kind : Lexeme} {text : List Char} {lexemes : List Lexeme} (spelled : kind.isSpelled)
    (ends : ∀ character ∈ text.head?, kind.endsBefore character) (behind : Scans text lexemes) :
    Scans (kind.spelling.toList ++ text) (kind :: lexemes)

namespace Scans

variable {text rest : List Char} {lexemes more : List Lexeme}

theorem eq_nil (scans : Scans text lexemes) (nothing : text = []) : lexemes = [] := by
  cases scans with
  | nil => rfl
  | blank => cases nothing
  | lexeme spelled ends _ =>
    have starts := Lexer.startsToken_spelling spelled ends
    rw [nothing] at starts
    exact starts.elim

theorem append (first : Scans text lexemes) (second : Scans rest more)
    (ends : ∀ kind ∈ lexemes.getLast?, ∀ character ∈ rest.head?, kind.endsBefore character) :
    Scans (text ++ rest) (lexemes ++ more) := by
  induction first with
  | nil => exact second
  | blank isBlank _ ih => exact .blank isBlank (ih ends)
  | @lexeme kind text lexemes spelled stops behind ih =>
    rw [List.append_assoc, List.cons_append]
    refine .lexeme spelled (fun character member => ?_) (ih fun other last => ends other ?_)
    · cases text with
      | nil =>
        obtain rfl := behind.eq_nil rfl
        exact ends kind rfl character member
      | cons first text => exact stops character member
    · cases lexemes with
      | nil => cases last
      | cons next lexemes => rwa [List.getLast?_cons_cons]

/-- The first of the lexemes stands at the front of a text, and the others behind it; nothing is left
if there are none. -/
def Stand : List Lexeme → List Char → Prop
  | [], text => text = []
  | kind :: others, text => ∃ rest, text = kind.spelling.toList ++ rest ∧ kind.isSpelled ∧
      (∀ character ∈ rest.head?, kind.endsBefore character) ∧ Scans rest others

theorem skipWithin {cursor : Cursor} (scans : Scans text lexemes) (ahead : cursor.rest = text)
    {budget : Nat} (enough : text.length < budget) :
    ∃ count, (Lexer.skipWithin budget).run cursor = .ok ⟨⟩ (cursor.past count) ∧
      Stand lexemes (cursor.past count).rest := by
  induction scans generalizing cursor budget with
  | nil =>
    obtain ⟨budget, rfl⟩ := Nat.exists_eq_add_one_of_ne_zero (Nat.ne_of_gt enough)
    refine ⟨0, ?_, ahead⟩
    simp [Lexer.skipWithin, Lexer.skipOne_end ahead, Cursor.past]
  | @blank character text lexemes isBlank behind ih =>
    obtain ⟨budget, rfl⟩ := Nat.exists_eq_add_one_of_ne_zero (Nat.ne_of_gt (Nat.zero_lt_of_lt enough))
    have next : cursor.advance.rest = text := by rw [Cursor.rest_advance, ahead]; rfl
    obtain ⟨count, skips, found⟩ := ih next (Nat.lt_of_succ_lt_succ enough)
    refine ⟨count + 1, ?_, found⟩
    rw [Lexer.skipWithin, EStateM.run_bind, Lexer.skipOne_blank ahead isBlank]
    exact skips
  | @lexeme kind text lexemes spelled ends behind ih =>
    obtain ⟨budget, rfl⟩ := Nat.exists_eq_add_one_of_ne_zero (Nat.ne_of_gt (Nat.zero_lt_of_lt enough))
    have starts : Lexer.StartsToken cursor.rest := ahead ▸ Lexer.startsToken_spelling spelled ends
    refine ⟨0, ?_, text, ahead, spelled, ends, behind⟩
    simp [Lexer.skipWithin, Lexer.skipOne_token starts, Cursor.past]

end Scans

namespace Lexer

variable {source : String} {cursor : Cursor}

theorem lexeme_run_end (atEnd : cursor.rest = []) : lexeme.run cursor = .ok .endOfFile cursor := by
  simp [lexeme, atEnd]

theorem next_run {count : Nat} {kind : Lexeme} {after : Cursor}
    (skips : skipTrivia.run cursor = .ok ⟨⟩ (cursor.past count))
    (reads : lexeme.run { cursor.past count with atLineStart := false } = .ok kind after) :
    next.run cursor = .ok ⟨kind, (cursor.past count).location, after.location⟩ after := by
  simp [next, skips, reads, Cursor.location, -bind_pure_comp]

theorem bounded_inLine (bounded : cursor.Bounded source) :
    Cursor.Bounded source { cursor with atLineStart := false } :=
  ⟨bounded.rest, bounded.fits, bounded.line, bounded.column, bounded.ahead⟩

theorem tokensWithin_last {token : Token} {after : Cursor} (reads : next.run cursor = .ok token after)
    (isEnd : token.lexeme = .endOfFile) (budget : Nat) :
    (tokensWithin (budget + 1)).run cursor = .ok [token] after := by
  simp only [tokensWithin, EStateM.run_bind, reads, if_pos isEnd, EStateM.run_pure]

theorem tokensWithin_more {token : Token} {tokens : List Token} {between after : Cursor}
    (reads : next.run cursor = .ok token between) (notEnd : token.lexeme ≠ .endOfFile) {budget : Nat}
    (others : (tokensWithin budget).run between = .ok tokens after) :
    (tokensWithin (budget + 1)).run cursor = .ok (token :: tokens) after := by
  simp only [tokensWithin, EStateM.run_bind, reads, if_neg notEnd, others, EStateM.run_pure]

theorem tokensWithin_run {lexemes : List Lexeme} {text : List Char} (scans : Scans text lexemes)
    (ahead : cursor.rest = text) {budget : Nat} (enough : lexemes.length < budget) :
    ∃ tokens after, (tokensWithin budget).run cursor = .ok tokens after ∧
      tokens.map Token.lexeme = lexemes ++ [.endOfFile] ∧
      (cursor.Bounded source → after.Bounded source) := by
  induction lexemes generalizing cursor text budget with
  | nil =>
    obtain ⟨budget, rfl⟩ := Nat.exists_eq_add_one_of_ne_zero (Nat.ne_of_gt enough)
    obtain ⟨count, skips, stand⟩ := scans.skipWithin ahead (Nat.lt_succ_self text.length)
    have reads := next_run (by rw [← ahead] at skips; exact skips) (lexeme_run_end stand)
    exact ⟨_, _, tokensWithin_last reads rfl budget, rfl,
      fun bounded => bounded_inLine (bounded.past count)⟩
  | cons kind others ih =>
    obtain ⟨budget, rfl⟩ := Nat.exists_eq_add_one_of_ne_zero (Nat.ne_of_gt (Nat.zero_lt_of_lt enough))
    obtain ⟨count, skips, rest, found, spelled, ends, behind⟩ :=
      scans.skipWithin ahead (Nat.lt_succ_self text.length)
    have reads := next_run (by rw [← ahead] at skips; exact skips) (lexeme_run spelled ends found)
    have left : (Cursor.past kind.spelling.toList.length
        { cursor.past count with atLineStart := false }).rest = rest := by
      rw [Cursor.rest_past, found, List.drop_left]
    obtain ⟨tokens, after, runs, lexed, fits⟩ := ih behind left (Nat.lt_of_succ_lt_succ enough)
    have notEnd : kind ≠ .endOfFile := by
      rintro rfl
      cases spelled
    exact ⟨_, after, tokensWithin_more reads notEnd runs, congrArg (kind :: ·) lexed,
      fun bounded => fits ((bounded_inLine (bounded.past count)).past _)⟩

theorem length_lexemes_le {lexemes : List Lexeme} {text : List Char} (scans : Scans text lexemes) :
    lexemes.length ≤ text.length := by
  induction scans with
  | nil => exact Nat.le_refl _
  | blank _ _ ih => exact Nat.le_succ_of_le ih
  | @lexeme kind text lexemes spelled ends _ ih =>
    have starts : StartsToken (kind.spelling.toList ++ []) :=
      startsToken_spelling spelled (fun _ none => by cases none)
    cases spelling : kind.spelling.toList with
    | nil =>
      rw [spelling] at starts
      exact starts.elim
    | cons first others =>
      rw [List.length_cons, List.length_append, List.length_cons]
      omega

/-- Tokens that are scanned are those of the text, unless it is so long that lines and columns cannot be
counted. -/
theorem tokenize_of_run {text file : String} {found : List Token} {after : Cursor}
    (scanned : tokens.run (.ofText text file) = .ok found after)
    (bounded : Cursor.Bounded text (.ofText text file) → after.Bounded text) :
    tokenize text file = .ok found ∨
      tokenize text file = .error .overflow ∧ Text.lineBound ≤ text.length + 1 := by
  have checks : (checked tokens).run (.ofText text file) =
      if after.overflowed then .error .overflow after else .ok found after := by
    show checked tokens _ = _
    unfold checked
    rw [show tokens (.ofText text file) = _ from scanned]
  unfold tokenize
  rw [checks]
  cases overflows : after.overflowed with
  | false => exact .inl rfl
  | true =>
    refine .inr ⟨rfl, Nat.le_of_not_lt fun short => ?_⟩
    rw [(bounded (.ofText short file)).fits] at overflows
    cases overflows

/-- The tokens of a text that is put together from spellings are the lexemes that are spelled, unless the
text is so long that lines and columns cannot be counted. -/
theorem tokenize_of_scans {text : String} {lexemes : List Lexeme} (scans : Scans text.toList lexemes)
    (file : String) :
    (∃ tokens, tokenize text file = .ok tokens ∧ tokens.map Token.lexeme = lexemes ++ [.endOfFile]) ∨
      tokenize text file = .error .overflow ∧ Text.lineBound ≤ text.length + 1 := by
  have enough := Nat.lt_succ_of_le (length_lexemes_le scans)
  have start : (Cursor.ofText text file).rest = text.toList := rfl
  obtain ⟨found, after, runs, lexed, bounded⟩ := tokensWithin_run scans start enough
  exact (tokenize_of_run runs bounded).imp_left fun tokenized => ⟨found, tokenized, lexed⟩

end Lexer

/-! ## Annotations -/

namespace Annotation

def announces : Lexeme → Bool
  | .identifier name => name == "__extension__" || attributeWords.contains name
  | .keyword .kwAsm => true
  | _ => false

theorem outsideMode_eq_none {kind : Lexeme} (plain : announces kind = false) (last : Option Lexeme) :
    outsideMode last kind = none := by
  unfold outsideMode
  split
  · simp only [announces, Bool.or_eq_false_iff] at plain
    simp only [plain.1, plain.2, Bool.false_eq_true, if_false]
  · cases plain
  · rfl

theorem stripFrom_eq_self {tokens : List Token}
    (plain : ∀ token ∈ tokens, announces token.lexeme = false) (last : Option Lexeme) :
    stripFrom last .outside tokens = tokens := by
  induction tokens generalizing last with
  | nil => rfl
  | cons token rest ih =>
    rw [List.forall_mem_cons] at plain
    rw [stripFrom, nextMode, outsideMode_eq_none plain.1]
    exact congrArg (token :: ·) (ih plain.2 _)

end Annotation

end InlineMacro
