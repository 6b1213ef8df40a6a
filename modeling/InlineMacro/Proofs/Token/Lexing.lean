import InlineMacro.Proofs.Stateful
import InlineMacro.Proofs.Token.Writing

/-!
# What is scanned

Every token that the lexer finds is spelled as one, whatever stands in front of it and behind it, and
takes at least a character. So the tokens of a text are found again when they are written with blanks
between them, and the lexer comes to the end of every text.
-/

set_option autoImplicit false

namespace InlineMacro

namespace Lexer

/-! ## What belongs to a token -/

theorem exists_numberText {first : Char} (isNumber : isNumberCharacter first) (rest : List Char) :
    ∃ others, numberText (first :: rest) = first :: others := by
  cases rest with
  | nil => exact ⟨[], by rw [numberText, if_pos isNumber]⟩
  | cons next rest =>
    rw [numberText, if_neg (by simp [isNumber])]
    split
    · exact ⟨_, rfl⟩
    · exact ⟨_, rfl⟩

theorem numberText_numberText (text : List Char) : numberText (numberText text) = numberText text := by
  fun_induction numberText text with
  | case1 => rfl
  | case2 character isNumber => simp [numberText, isNumber]
  | case3 => rfl
  | case4 => rfl
  | case5 character next rest isNumber exponent ih =>
    rw [numberText, if_neg isNumber, if_pos exponent, ih]
  | case6 character next rest isNumber noExponent ih =>
    by_cases nextNumber : isNumberCharacter next
    · obtain ⟨others, behind⟩ := exists_numberText nextNumber rest
      rw [behind] at ih ⊢
      rw [numberText, if_neg isNumber, if_neg noExponent, ih]
    · have ends : numberText (next :: rest) = [] := by
        cases rest <;> simp [numberText, nextNumber]
      simp only [Bool.not_eq_true', Bool.not_eq_false] at isNumber
      rw [ends, numberText, if_pos isNumber]

def StartsNumber (text : List Char) : Prop :=
  ∃ first rest, text = first :: rest ∧ (first.isDigit ∨ first = '.' ∧ rest.head?.any Char.isDigit)

theorem isNumberCharacter_of_isDigit {character : Char} (digit : character.isDigit) :
    isNumberCharacter character := by
  simp [isNumberCharacter, Char.isAlphanum, digit]

theorem isNumber_numberText {text : List Char} (starts : StartsNumber text)
    (notBase : ¬((numberText text).length = 2 ∧ ['0', 'x'].isPrefixOf ((numberText text).map Char.toLower))) :
    Lexeme.isNumber (numberText text) ∧ numberText text ≠ [] := by
  obtain ⟨first, rest, rfl, opens⟩ := starts
  have isNumber : isNumberCharacter first := by
    rcases opens with digit | ⟨rfl, -⟩
    · exact isNumberCharacter_of_isDigit digit
    · decide
  obtain ⟨others, same⟩ := exists_numberText isNumber rest
  have opensNumber : first.isDigit || first == '.' && others.head?.any Char.isDigit := by
    rcases opens with digit | ⟨rfl, second⟩
    · rw [digit, Bool.true_or]
    · cases rest with
      | nil => cases second
      | cons next rest =>
        have digit : next.isDigit := second
        obtain ⟨more, behind⟩ := exists_numberText (isNumberCharacter_of_isDigit digit) rest
        have whole : numberText ('.' :: next :: rest) = '.' :: numberText (next :: rest) := by
          rw [numberText, if_neg (by decide), if_neg (by simp [isExponentMark])]
        rw [behind] at whole
        rw [(List.cons.inj (same.symm.trans whole)).2]
        simp [digit]
  have again := numberText_numberText (first :: rest)
  rw [same] at again notBase ⊢
  refine ⟨?_, List.cons_ne_nil _ _⟩
  simp only [Lexeme.isNumber, Bool.and_eq_true, beq_iff_eq, Bool.not_eq_true', Bool.and_eq_false_iff]
  refine ⟨⟨opensNumber, again⟩, ?_⟩
  by_cases length : (first :: others).length = 2
  · right
    exact Bool.eq_false_iff.mpr fun base => notBase ⟨length, base⟩
  · left
    exact beq_eq_false_iff_ne.mpr length

variable {quote : Char}

theorem quotedText_cons {character : Char} (notBackslash : character ≠ '\\')
    (notBreak : character ≠ '\n') (rest : List Char) : quotedText quote (character :: rest) =
      if character == quote then ([character], true)
      else (character :: (quotedText quote rest).1, (quotedText quote rest).2) := by
  rw [quotedText]
  · exact fun isBackslash _ => notBackslash isBackslash
  · exact fun _ _ isBackslash _ => notBackslash isBackslash
  · exact notBreak

variable {body : List Char}

theorem quotedText_quotedText (text : List Char)
    (closed : quotedText quote text = (body, true)) : quotedText quote body = (body, true) ∧ body ≠ [] := by
  fun_induction quotedText quote text generalizing body with
  | case1 => cases closed
  | case2 => cases closed
  | case3 escaped rest inner isClosed behind ih =>
    cases closed
    rw [quotedText, (ih behind).1]
    exact ⟨rfl, List.cons_ne_nil _ _⟩
  | case4 => cases closed
  | case5 character rest notEnd notEscape notBreak isQuote =>
    cases closed
    have notBackslash : character ≠ '\\' := by
      rintro rfl
      cases rest with
      | nil => exact notEnd rfl rfl
      | cons next rest => exact notEscape next rest rfl rfl
    rw [quotedText_cons notBackslash notBreak, if_pos isQuote]
    exact ⟨rfl, List.cons_ne_nil _ _⟩
  | case6 character rest notEnd notEscape notBreak notQuote inner isClosed behind ih =>
    cases closed
    have notBackslash : character ≠ '\\' := by
      rintro rfl
      cases rest with
      | nil => exact notEnd rfl rfl
      | cons next rest => exact notEscape next rest rfl rfl
    rw [quotedText_cons notBackslash notBreak, if_neg notQuote, (ih behind).1]
    exact ⟨rfl, List.cons_ne_nil _ _⟩

variable {leading : List Char}

theorem quotedBody?_append (isQuote : quote = '\'' ∨ quote = '"')
    (isPrefix : leading = [] ∨ literalPrefixes.contains (String.ofList leading))
    (closed : quotedText quote body = (body, true)) :
    Lexeme.quotedBody? quote (leading ++ quote :: body) = some body := by
  have noQuote : ∀ character ∈ leading, (character != quote) = true := by
    rcases isPrefix with rfl | isPrefix
    · exact fun _ member => absurd member List.not_mem_nil
    · intro character member
      have ofWord := isIdentifierCharacter_of_isWord (isWord_of_literalPrefix isPrefix) _ member
      rw [bne_iff_ne]
      rintro rfl
      rcases isQuote with rfl | rfl
      · exact absurd ofWord (by decide)
      · exact absurd ofWord (by decide)
  have fits : (leading.isEmpty || literalPrefixes.contains (String.ofList leading)) = true := by
    rcases isPrefix with rfl | isPrefix
    · rfl
    · rw [isPrefix, Bool.or_true]
  have before : (leading ++ quote :: body).takeWhile (· != quote) = leading := by
    rw [List.takeWhile_append_of_pos noQuote, List.takeWhile_cons_of_neg (by simp), List.append_nil]
  have behind : (leading ++ quote :: body).dropWhile (· != quote) = quote :: body := by
    rw [List.dropWhile_append_of_pos noQuote, List.dropWhile_cons_of_neg (by simp)]
  unfold Lexeme.quotedBody?
  rw [before, behind]
  simp only [fits, closed, BEq.rfl, Bool.and_self, if_true]

theorem isSpelled_numberLexeme {text : List Char} (isNumber : Lexeme.isNumber text) :
    (numberLexeme text).isSpelled := by
  have kinds : numberLexeme text = .floatLiteral (String.ofList text) ∨
      numberLexeme text = .intLiteral (String.ofList text) := by
    unfold numberLexeme
    dsimp only
    split
    · exact .inl rfl
    · exact .inr rfl
  rcases kinds with same | same
  all_goals
    rw [same, Lexeme.isSpelled, String.toList_ofList, isNumber, same, BEq.rfl]
    rfl

theorem isSpelled_charLiteral (isPrefix : leading = [] ∨ literalPrefixes.contains (String.ofList leading))
    (closed : quotedText '\'' body = (body, true)) (some : body ≠ ['\'']) :
    (Lexeme.charLiteral (String.ofList (leading ++ '\'' :: body))).isSpelled := by
  rw [Lexeme.isSpelled, String.toList_ofList, quotedBody?_append (.inl rfl) isPrefix closed]
  exact bne_iff_ne.mpr some

theorem isSpelled_stringLiteral (isPrefix : leading = [] ∨ literalPrefixes.contains (String.ofList leading))
    (closed : quotedText '"' body = (body, true)) :
    (Lexeme.stringLiteral (String.ofList (leading ++ '"' :: body))).isSpelled := by
  rw [Lexeme.isSpelled, String.toList_ofList, quotedBody?_append (.inr rfl) isPrefix closed]
  rfl

end Lexer

/-! ## Scanning one token -/

namespace OnSuccess

open Lexer

variable {α : Type} {cursor : Cursor} {post : α → Cursor → Prop}

theorem take {text : List Char} {next : Unit → Scan α}
    (behind : OnSuccess (next ()) (cursor.past text.length) post) :
    OnSuccess (Lexer.take text >>= next) cursor post := behind

theorem fault {location : Location} {cause : LexicalFault} :
    OnSuccess (Lexer.fault location cause : Scan α) cursor post :=
  .failure _

end OnSuccess

namespace Lexer

variable {cursor : Cursor} {first : Char}

theorem notEnd_of_ahead {behind : List Char} (ahead : cursor.rest = first :: behind) : cursor.rest ≠ [] := by
  rw [ahead]
  exact List.cons_ne_nil _ _

theorem length_rest_past_le (cursor : Cursor) (count : Nat) :
    (cursor.past count).rest.length ≤ cursor.rest.length := by
  rw [Cursor.rest_past, List.length_drop]
  exact Nat.sub_le _ _

theorem length_rest_past {taken : List Char} (some : taken ≠ []) (notEnd : cursor.rest ≠ []) :
    (cursor.past taken.length).rest.length < cursor.rest.length := by
  rw [Cursor.rest_past, List.length_drop]
  exact Nat.sub_lt (List.length_pos_iff.mpr notEnd) (List.length_pos_iff.mpr some)

def Takes (cursor : Cursor) (kind : Lexeme) (after : Cursor) : Prop :=
  kind.isSpelled ∧ after.rest.length < cursor.rest.length

theorem number_takes (starts : StartsNumber cursor.rest) : OnSuccess number cursor (Takes cursor) := by
  have notEnd : cursor.rest ≠ [] := by
    obtain ⟨first, rest, same, -⟩ := starts
    exact notEnd_of_ahead same
  apply OnSuccess.get
  apply OnSuccess.take
  apply OnSuccess.ite
  · intro _
    exact .get .fault
  · intro notBase
    obtain ⟨isNumber, some⟩ := isNumber_numberText starts notBase
    exact .pure ⟨isSpelled_numberLexeme isNumber, length_rest_past some notEnd⟩

theorem quoted_takes {quote : Char} (what : String) {behind : List Char}
    (ahead : cursor.rest = quote :: behind) : OnSuccess (quoted quote what) cursor fun text after =>
      (∃ body, text = quote :: body ∧ quotedText quote body = (body, true)) ∧
        after.rest.length < cursor.rest.length := by
  have opening : cursor.rest.take 1 = [quote] := by
    rw [ahead]
    rfl
  have notEnd := notEnd_of_ahead ahead
  apply OnSuccess.get
  rw [opening]
  apply OnSuccess.take
  apply OnSuccess.get
  cases read : quotedText quote (cursor.past [quote].length).rest with
  | mk body isClosed =>
  apply OnSuccess.take
  apply OnSuccess.ite
  · intro closed
    subst closed
    refine .pure ⟨⟨body, rfl, (quotedText_quotedText _ read).1⟩, ?_⟩
    exact Nat.lt_of_le_of_lt (length_rest_past_le _ _) (length_rest_past (List.cons_ne_nil _ _) notEnd)
  · intro _
    exact .get .fault

theorem charLiteral_takes {leading : List Char} {behind : List Char}
    (isPrefix : leading = [] ∨ literalPrefixes.contains (String.ofList leading))
    (ahead : cursor.rest = '\'' :: behind) :
    OnSuccess (charLiteral (String.ofList leading)) cursor (Takes cursor) := by
  refine OnSuccess.bind (quoted_takes "character" ahead) ?_
  rintro _ between ⟨⟨body, rfl, closed⟩, shorter⟩
  apply OnSuccess.ite
  · intro _
    exact .get .fault
  · intro size
    have some : body ≠ ['\''] := by
      rintro rfl
      exact size (by decide)
    rw [← String.ofList_append]
    exact .pure ⟨isSpelled_charLiteral isPrefix closed some, shorter⟩

theorem stringLiteral_takes {leading : List Char} {behind : List Char}
    (isPrefix : leading = [] ∨ literalPrefixes.contains (String.ofList leading))
    (ahead : cursor.rest = '"' :: behind) :
    OnSuccess (stringLiteral (String.ofList leading)) cursor (Takes cursor) := by
  refine OnSuccess.bind (quoted_takes "string" ahead) ?_
  rintro _ between ⟨⟨body, rfl, closed⟩, shorter⟩
  dsimp only
  rw [← String.ofList_append]
  exact .pure ⟨isSpelled_stringLiteral isPrefix closed, shorter⟩

theorem Takes.behind {between after : Cursor} {kind : Lexeme} (takes : Takes between kind after)
    (shorter : between.rest.length ≤ cursor.rest.length) : Takes cursor kind after :=
  ⟨takes.1, Nat.lt_of_lt_of_le takes.2 shorter⟩

theorem word_takes {behind : List Char} (ahead : cursor.rest = first :: behind)
    (starts : isIdentifierStart first) : OnSuccess word cursor (Takes cursor) := by
  have taken : cursor.rest.takeWhile isIdentifierCharacter =
      first :: behind.takeWhile isIdentifierCharacter := by
    rw [ahead, List.takeWhile_cons_of_pos (isIdentifierCharacter_of_isIdentifierStart starts)]
  have isWord : Lexeme.isWord (cursor.rest.takeWhile isIdentifierCharacter) := by
    rw [taken, Lexeme.isWord, starts, List.all_takeWhile]
    rfl
  have some : cursor.rest.takeWhile isIdentifierCharacter ≠ [] := by
    rw [taken]
    exact List.cons_ne_nil _ _
  have shorter := length_rest_past some (notEnd_of_ahead ahead)
  apply OnSuccess.get
  apply OnSuccess.take
  apply OnSuccess.get
  split
  · next behind isPrefix quoted =>
    exact (stringLiteral_takes (.inr isPrefix) quoted).mono fun _ _ takes => takes.behind shorter.le
  · next behind isPrefix quoted =>
    exact (charLiteral_takes (.inr isPrefix) quoted).mono fun _ _ takes => takes.behind shorter.le
  · split
    · exact .pure ⟨rfl, shorter⟩
    · next noKeyword =>
      refine .pure ⟨?_, shorter⟩
      rw [Lexeme.isSpelled, String.toList_ofList, isWord, noKeyword]
      rfl

theorem mark_takes (notEnd : cursor.rest ≠ []) : OnSuccess mark cursor (Takes cursor) := by
  apply OnSuccess.get
  split
  · next atEnd => exact absurd atEnd notEnd
  · split
    · next sign _ =>
      apply OnSuccess.take
      have some : sign.spelling.toList ≠ [] := by cases sign <;> decide
      exact .pure ⟨rfl, length_rest_past some notEnd⟩
    · apply OnSuccess.take
      exact .fault

def Scanned (cursor : Cursor) (kind : Lexeme) (after : Cursor) : Prop :=
  kind = .endOfFile ∧ after.rest = [] ∨ Takes cursor kind after

theorem lexeme_scanned : OnSuccess lexeme cursor (Scanned cursor) := by
  apply OnSuccess.get
  split
  · next atEnd => exact .pure (.inl ⟨rfl, atEnd⟩)
  · next first behind ahead =>
    suffices takes : OnSuccess _ cursor (Takes cursor) from takes.mono fun _ _ => Or.inr
    apply OnSuccess.ite
    · exact word_takes ahead
    intro _
    apply OnSuccess.ite
    · intro digit
      exact number_takes ⟨first, behind, ahead, .inl digit⟩
    intro _
    apply OnSuccess.ite
    · intro point
      rw [Bool.and_eq_true, beq_iff_eq] at point
      exact number_takes ⟨first, behind, ahead, .inr point⟩
    intro _
    apply OnSuccess.ite
    · intro isQuote
      rw [beq_iff_eq.mp isQuote] at ahead
      exact @charLiteral_takes cursor [] behind (.inl rfl) ahead
    intro _
    apply OnSuccess.ite
    · intro isQuote
      rw [beq_iff_eq.mp isQuote] at ahead
      exact @stringLiteral_takes cursor [] behind (.inl rfl) ahead
    · intro _
      exact mark_takes (notEnd_of_ahead ahead)

/-! ## Skipping what separates tokens -/

theorem lineComment_shortens {behind : List Char} (ahead : cursor.rest = first :: behind)
    (notBreak : first ≠ '\n') :
    OnSuccess lineComment cursor fun _ after => after.rest.length < cursor.rest.length := by
  have some : cursor.rest.takeWhile (· != '\n') ≠ [] := by
    rw [ahead, List.takeWhile_cons, if_pos (bne_iff_ne.mpr notBreak)]
    exact List.cons_ne_nil _ _
  apply OnSuccess.get
  exact .pure (length_rest_past some (notEnd_of_ahead ahead))

theorem blockComment_shortens (notEnd : cursor.rest ≠ []) :
    OnSuccess blockComment cursor fun _ after => after.rest.length < cursor.rest.length := by
  apply OnSuccess.get
  apply OnSuccess.take
  apply OnSuccess.get
  apply OnSuccess.take
  apply OnSuccess.ite
  · intro _
    exact .fault
  · intro _
    exact .pure (Nat.lt_of_le_of_lt (length_rest_past_le _ _)
      (length_rest_past (List.cons_ne_nil _ _) notEnd))

theorem directive_shortens (notEnd : cursor.rest ≠ []) :
    OnSuccess directive cursor fun _ after => after.rest.length < cursor.rest.length := by
  have shorter : (cursor.past ((cursor.rest.takeWhile (· != '\n')).length + 1)).rest.length <
      cursor.rest.length := by
    rw [Cursor.rest_past, List.length_drop]
    exact Nat.sub_lt (List.length_pos_iff.mpr notEnd) (Nat.succ_pos _)
  apply OnSuccess.get
  apply OnSuccess.set
  split
  · exact .pure shorter
  · exact .fault
  · split
    · exact .fault
    · exact .pure shorter

theorem skipOne_shortens : OnSuccess skipOne cursor fun goesOn after =>
    if goesOn then after.rest.length < cursor.rest.length else after = cursor := by
  apply OnSuccess.get
  split
  · exact .pure rfl
  · next ahead =>
    apply OnSuccess.take
    exact .pure (length_rest_past (List.cons_ne_nil _ _) (notEnd_of_ahead ahead))
  · next ahead => exact (lineComment_shortens ahead (by decide)).bind fun _ _ shorter => .pure shorter
  · next ahead =>
    exact (blockComment_shortens (notEnd_of_ahead ahead)).bind fun _ _ shorter => .pure shorter
  · next ahead =>
    have notEnd := notEnd_of_ahead ahead
    apply OnSuccess.ite
    · intro _
      apply OnSuccess.take
      exact .pure (length_rest_past (List.cons_ne_nil _ _) notEnd)
    intro _
    apply OnSuccess.ite
    · intro _
      exact (directive_shortens notEnd).bind fun _ _ shorter => .pure shorter
    · intro _
      exact .pure rfl

variable {budget : Nat}

theorem skipWithin_eq {other : Nat} (enough : cursor.rest.length < budget)
    (alsoEnough : cursor.rest.length < other) :
    (skipWithin budget).run cursor = (skipWithin other).run cursor := by
  induction budget generalizing cursor other with
  | zero => exact absurd enough (Nat.not_lt_zero _)
  | succ budget ih =>
    obtain ⟨other, rfl⟩ := Nat.exists_eq_add_one_of_ne_zero (Nat.ne_of_gt (Nat.zero_lt_of_lt alsoEnough))
    rw [skipWithin, skipWithin, EStateM.run_bind, EStateM.run_bind]
    cases skips : skipOne.run cursor with
    | error failure after => rfl
    | ok goesOn after =>
      cases goesOn with
      | false => rfl
      | true =>
        have shorter : after.rest.length < cursor.rest.length := skipOne_shortens true after skips
        exact ih (Nat.lt_of_lt_of_le shorter (Nat.le_of_lt_succ enough))
          (Nat.lt_of_lt_of_le shorter (Nat.le_of_lt_succ alsoEnough))

theorem skipTrivia_run (cursor : Cursor) :
    skipTrivia.run cursor = (skipOne >>= fun goesOn => if goesOn then skipTrivia else pure ()).run cursor := by
  show (skipWithin (cursor.rest.length + 1)).run cursor = _
  rw [skipWithin, EStateM.run_bind, EStateM.run_bind]
  cases skips : skipOne.run cursor with
  | error failure after => rfl
  | ok goesOn after =>
    cases goesOn with
    | false => rfl
    | true =>
      have shorter : after.rest.length < cursor.rest.length := skipOne_shortens true after skips
      exact skipWithin_eq shorter (Nat.lt_succ_self _)

theorem skipWithin_shortens (budget : Nat) : OnSuccess (skipWithin budget) cursor fun _ after =>
    after.rest.length ≤ cursor.rest.length := by
  induction budget generalizing cursor with
  | zero => exact .pure (Nat.le_refl _)
  | succ budget ih =>
    refine skipOne_shortens.bind fun goesOn between skips => ?_
    apply OnSuccess.ite
    · intro more
      rw [if_pos more] at skips
      exact ih.mono fun _ _ shorter => Nat.le_trans shorter skips.le
    · intro done
      rw [if_neg done] at skips
      subst skips
      exact .pure (Nat.le_refl _)

/-! ## Scanning all tokens -/

theorem next_scanned : OnSuccess next cursor fun token after => Scanned cursor token.lexeme after := by
  refine OnSuccess.bind (OnSuccess.get (skipWithin_shortens _)) ?_
  intro _ between shorter
  apply OnSuccess.modify
  apply OnSuccess.get
  refine lexeme_scanned.bind fun kind after scanned => .get (.pure ?_)
  exact scanned.imp_right fun takes => takes.behind shorter

theorem tokensWithin_eq {other : Nat} (enough : cursor.rest.length < budget)
    (alsoEnough : cursor.rest.length < other) :
    (tokensWithin budget).run cursor = (tokensWithin other).run cursor := by
  induction budget generalizing cursor other with
  | zero => exact absurd enough (Nat.not_lt_zero _)
  | succ budget ih =>
    obtain ⟨other, rfl⟩ := Nat.exists_eq_add_one_of_ne_zero (Nat.ne_of_gt (Nat.zero_lt_of_lt alsoEnough))
    rw [tokensWithin, tokensWithin, EStateM.run_bind, EStateM.run_bind]
    cases scans : next.run cursor with
    | error failure after => rfl
    | ok token after =>
      dsimp only
      split
      · rfl
      · next notEnd =>
        have shorter : after.rest.length < cursor.rest.length :=
          ((next_scanned token after scans).resolve_left fun atEnd => notEnd atEnd.1).2
        rw [EStateM.run_bind, EStateM.run_bind, ih (Nat.lt_of_lt_of_le shorter (Nat.le_of_lt_succ enough))
          (Nat.lt_of_lt_of_le shorter (Nat.le_of_lt_succ alsoEnough))]

theorem tokens_run (cursor : Cursor) : tokens.run cursor = EStateM.run (do
    let token ← next
    if token.lexeme = .endOfFile then pure [token] else return token :: (← tokens)) cursor := by
  show (tokensWithin (cursor.rest.length + 1)).run cursor = _
  rw [tokensWithin, EStateM.run_bind, EStateM.run_bind]
  cases scans : next.run cursor with
  | error failure after => rfl
  | ok token after =>
    dsimp only
    split
    · rfl
    · next notEnd =>
      have shorter := ((next_scanned token after scans).resolve_left fun atEnd => notEnd atEnd.1).2
      have same := tokensWithin_eq shorter (Nat.lt_succ_self after.rest.length)
      rw [EStateM.run_bind, EStateM.run_bind, same]
      rfl

theorem tokensWithin_spelled (enough : cursor.rest.length < budget) :
    OnSuccess (tokensWithin budget) cursor fun tokens _ =>
      ∃ kinds, tokens.map Token.lexeme = kinds ++ [.endOfFile] ∧ ∀ kind ∈ kinds, kind.isSpelled := by
  induction budget generalizing cursor with
  | zero => exact absurd enough (Nat.not_lt_zero _)
  | succ budget ih =>
    refine next_scanned.bind fun token between scanned => ?_
    apply OnSuccess.ite
    · intro isEnd
      exact .pure ⟨[], congrArg ([·]) isEnd, fun _ member => absurd member List.not_mem_nil⟩
    · intro notEnd
      obtain ⟨spelled, shorter⟩ := scanned.resolve_left fun atEnd => notEnd atEnd.1
      refine (ih (Nat.lt_of_lt_of_le shorter (Nat.le_of_lt_succ enough))).bind ?_
      rintro others after ⟨kinds, same, all⟩
      exact .pure ⟨token.lexeme :: kinds, congrArg (token.lexeme :: ·) same,
        List.forall_mem_cons.mpr ⟨spelled, all⟩⟩

theorem exists_tokens_run {text file : String} {found : List Token} (scanned : tokenize text file = .ok found) :
    ∃ after, tokens.run (.ofText text file) = .ok found after := by
  unfold tokenize at scanned
  split at scanned
  · next result between runs =>
    cases scanned
    change checked tokens (.ofText text file) = _ at runs
    unfold checked at runs
    split at runs
    · next result after all =>
      split at runs
      · cases runs
      · cases runs
        exact ⟨_, all⟩
    · cases runs
  · cases scanned

theorem isSpelled_of_tokenize {text file : String} {found : List Token}
    (scanned : tokenize text file = .ok found) :
    ∀ token ∈ found, token.lexeme ≠ .endOfFile → token.lexeme.isSpelled := by
  obtain ⟨after, runs⟩ := exists_tokens_run scanned
  obtain ⟨kinds, same, spelled⟩ := tokensWithin_spelled (Nat.lt_succ_self _) found after runs
  intro token member goesOn
  have among : token.lexeme ∈ kinds ++ [.endOfFile] := same ▸ List.mem_map_of_mem member
  rcases List.mem_append.mp among with among | among
  · exact spelled _ among
  · exact absurd (List.mem_singleton.mp among) goesOn

/-- The tokens of a text are found again when their spellings are written with blanks between them. Only
lines and columns may no longer be counted then, if that is a longer line than the counters have room
for. -/
theorem tokenize_respaced {text file : String} {found : List Token} (again : String)
    (scanned : tokenize text file = .ok found) :
    ∃ kinds, found.map Token.lexeme = kinds ++ [.endOfFile] ∧ Lexeme.endOfFile ∉ kinds ∧
      ((∃ tokens, tokenize (Text.join " " (kinds.map Lexeme.spelling)) again = .ok tokens ∧
          tokens.map Token.lexeme = found.map Token.lexeme) ∨
        tokenize (Text.join " " (kinds.map Lexeme.spelling)) again = .error .overflow ∧
          Text.lineBound ≤ (Text.join " " (kinds.map Lexeme.spelling)).length + 1) := by
  obtain ⟨after, runs⟩ := exists_tokens_run scanned
  obtain ⟨kinds, same, spelled⟩ := tokensWithin_spelled (Nat.lt_succ_self _) found after runs
  have noEnd : Lexeme.endOfFile ∉ kinds := fun member => Bool.noConfusion (spelled _ member)
  refine ⟨kinds, same, noEnd, ?_⟩
  rw [same]
  exact tokenize_of_scans (.join_spaced spelled) again

/-- A comment, a continued line and the sign of an exponent do not keep tokens from being found again. -/
theorem tokenize_respaced_of_comment :
    ∃ found, tokenize "x/**/=\\\n1e+2;" = .ok found ∧
      ∃ kinds, found.map Token.lexeme = kinds ++ [.endOfFile] ∧ Lexeme.endOfFile ∉ kinds ∧
        ((∃ tokens, tokenize (Text.join " " (kinds.map Lexeme.spelling)) = .ok tokens ∧
            tokens.map Token.lexeme = found.map Token.lexeme) ∨
          tokenize (Text.join " " (kinds.map Lexeme.spelling)) = .error .overflow ∧
            Text.lineBound ≤ (Text.join " " (kinds.map Lexeme.spelling)).length + 1) := by
  have accepted : (tokenize "x/**/=\\\n1e+2;").isOk := by decide +kernel
  cases scanned : tokenize "x/**/=\\\n1e+2;" with
  | ok found => exact ⟨found, rfl, tokenize_respaced "<input>" scanned⟩
  | error failure =>
    rw [scanned] at accepted
    cases accepted

end Lexer

end InlineMacro
