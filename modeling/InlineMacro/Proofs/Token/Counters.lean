import InlineMacro.Proofs.Token.Linemarkers
import InlineMacro.Token.Annotation

/-!
# Counting while scanning

Lines and columns are counted from the start of the text, but a linemarker sets the line to any
number that fits. So the counts fit as long as the text is short enough and each marker leaves room
for the lines behind it. The depth of an annotation is counted from the parenthesis that opens it.
-/

set_option autoImplicit false

namespace InlineMacro

/-! ## Lines and columns -/

namespace Cursor

/-- A cursor stands in a text, all counters have fitted so far, and they have room for the text
ahead. -/
structure Bounded (text : String) (cursor : Cursor) : Prop where
  rest : cursor.rest <:+ text.toList
  fits : cursor.overflowed = false
  line : cursor.line + cursor.rest.count '\n' < Text.lineBound
  column : cursor.column + cursor.rest.length < Text.lineBound
  ahead : cursor.rest.length + 1 < Text.lineBound

def MarkerFits (cursor : Cursor) : Prop :=
  cursor.atLineStart → cursor.rest.head? = some '#' → ∀ number rest following,
    Lexer.readDirective (cursor.rest.takeWhile (· != '\n')) = .linemarker number rest →
    Text.boundedDecimal? Text.lineBound number = some following →
    following + (cursor.rest.dropWhile (· != '\n')).tail.count '\n' < Text.lineBound

variable {text : String} {cursor : Cursor}

theorem Bounded.advance (bounded : cursor.Bounded text) : cursor.advance.Bounded text := by
  obtain ⟨rest, line, column, file, atLineStart, overflowed⟩ := cursor
  obtain ⟨within, fits, lines, columns, ahead⟩ := bounded
  dsimp only at within fits lines columns ahead
  unfold Cursor.advance
  split
  · next none => exact ⟨within, fits, lines, columns, ahead⟩
  · next behind newline =>
    dsimp only at newline
    subst newline
    simp only [List.count_cons_self, List.length_cons] at lines columns ahead
    refine ⟨(List.suffix_cons _ _).trans within, ?_, ?_, ?_, ?_⟩ <;> dsimp only
    · rw [fits, isFull, decide_eq_false (by omega)]
      rfl
    all_goals omega
  · next character behind notNewline same =>
    dsimp only at same
    subst same
    have other : character ≠ '\n' := fun newline => notNewline (by rw [newline])
    rw [List.count_cons_of_ne other] at lines
    simp only [List.length_cons] at columns ahead
    refine ⟨(List.suffix_cons _ _).trans within, ?_, ?_, ?_, ?_⟩ <;> dsimp only
    · rw [fits, isFull, decide_eq_false (by omega)]
      rfl
    all_goals omega

theorem Bounded.past (bounded : cursor.Bounded text) (count : Nat) : (past count cursor).Bounded text := by
  induction count generalizing cursor with
  | zero => exact bounded
  | succ count ih => exact ih bounded.advance

theorem Bounded.ofText {text : String} (short : text.length + 1 < Text.lineBound) (file : String) :
    (ofText text file).Bounded text := by
  have lines : text.toList.count '\n' ≤ text.toList.length := List.count_le_length
  rw [← String.length_toList] at short
  have first : 1 + text.toList.count '\n' < Text.lineBound := by omega
  have whole : 1 + text.toList.length < Text.lineBound := by omega
  exact ⟨List.suffix_rfl, rfl, first, whole, short⟩

end Cursor

namespace Lexer

variable {α β : Type} {text : String}

/-- From a cursor on, a scan keeps all counters within their types, and fails at a place. -/
structure KeepsAt (text : String) (cursor : Cursor) (scan : Scan α) : Prop where
  ok : ∀ value after, scan.run cursor = .ok value after → after.Bounded text
  error : ∀ failure after, scan.run cursor = .error failure after →
    after.Bounded text ∧ failure.isSyntaxError

def Keeps (scan : Scan α) : Prop :=
  ∀ text cursor, Cursor.Bounded text cursor → KeepsAt text cursor scan

namespace KeepsAt

variable {cursor : Cursor} {scan other : Scan α}

theorem pure (bounded : cursor.Bounded text) (value : α) : KeepsAt text cursor (Pure.pure value) where
  ok _ _ runs := by
    cases runs
    exact bounded
  error _ _ runs := by cases runs

theorem fault (bounded : cursor.Bounded text) (location : Location) (cause : LexicalFault) :
    KeepsAt text cursor (Lexer.fault location cause : Scan α) where
  ok _ _ runs := by cases runs
  error _ _ runs := by
    cases runs
    exact ⟨bounded, rfl⟩

theorem get {next : Cursor → Scan α} (keeps : KeepsAt text cursor (next cursor)) :
    KeepsAt text cursor (MonadState.get >>= next) :=
  ⟨keeps.ok, keeps.error⟩

theorem set {next : PUnit → Scan α} {changed : Cursor} (keeps : KeepsAt text changed (next ⟨⟩)) :
    KeepsAt text cursor (MonadStateOf.set changed >>= next) :=
  ⟨keeps.ok, keeps.error⟩

theorem modified {next : PUnit → Scan α} {change : Cursor → Cursor}
    (keeps : KeepsAt text (change cursor) (next ⟨⟩)) : KeepsAt text cursor (modify change >>= next) :=
  ⟨keeps.ok, keeps.error⟩

theorem bind {next : α → Scan β} (first : KeepsAt text cursor scan)
    (others : ∀ value after, scan.run cursor = .ok value after → after.Bounded text →
      KeepsAt text after (next value)) : KeepsAt text cursor (scan >>= next) where
  ok value after runs := by
    rw [EStateM.run_bind] at runs
    split at runs
    · next read between scans =>
      exact (others read between scans (first.ok read between scans)).ok value after runs
    · cases runs
  error failure after runs := by
    rw [EStateM.run_bind] at runs
    split at runs
    · next read between scans =>
      exact (others read between scans (first.ok read between scans)).error failure after runs
    · next fails =>
      cases runs
      exact first.error _ _ fails

theorem ite {condition : Prop} [Decidable condition] (first : KeepsAt text cursor scan)
    (second : KeepsAt text cursor other) : KeepsAt text cursor (if condition then scan else other) := by
  split
  · exact first
  · exact second

end KeepsAt

namespace Keeps

variable {scan other : Scan α}

theorem pure (value : α) : Keeps (Pure.pure value) := fun _ _ bounded => .pure bounded value

theorem fault (location : Location) (cause : LexicalFault) :
    Keeps (Lexer.fault location cause : Scan α) := fun _ _ bounded => .fault bounded location cause

theorem get {next : Cursor → Scan α} (keeps : ∀ cursor, Keeps (next cursor)) :
    Keeps (MonadState.get >>= next) := fun text cursor bounded => .get (keeps cursor text cursor bounded)

theorem bind {next : α → Scan β} (first : Keeps scan) (others : ∀ value, Keeps (next value)) :
    Keeps (scan >>= next) := fun text cursor bounded =>
  (first text cursor bounded).bind fun value after _ bounded => others value text after bounded

theorem ite {condition : Prop} [Decidable condition] (first : Keeps scan) (second : Keeps other) :
    Keeps (if condition then scan else other) :=
  fun text cursor bounded => .ite (first text cursor bounded) (second text cursor bounded)

theorem take (text : List Char) : Keeps (Lexer.take text) := fun _ cursor bounded => {
  ok := fun value after runs => by
    cases runs
    exact bounded.past text.length
  error := fun failure after runs => by cases runs }

end Keeps

/-! ## Lexemes -/

theorem number_keeps : Keeps number :=
  .get fun _ => (Keeps.take _).bind fun _ => .ite (.get fun _ => .fault _ _) (.pure _)

theorem quoted_keeps (quote : Char) (what : String) : Keeps (quoted quote what) :=
  .get fun _ => (Keeps.take _).bind fun _ => .get fun _ => (Keeps.take _).bind fun _ =>
    .ite (.pure _) (.get fun _ => .fault _ _)

theorem charLiteral_keeps (leading : String) : Keeps (charLiteral leading) :=
  (quoted_keeps _ _).bind fun _ => .ite (.get fun _ => .fault _ _) (.pure _)

theorem stringLiteral_keeps (leading : String) : Keeps (stringLiteral leading) :=
  (quoted_keeps _ _).bind fun _ => .pure _

theorem word_keeps : Keeps word := by
  refine .get fun _ => (Keeps.take _).bind fun _ => .get fun _ => ?_
  split
  · exact stringLiteral_keeps _
  · exact charLiteral_keeps _
  · split
    · exact .pure _
    · exact .pure _

theorem mark_keeps : Keeps mark := by
  refine .get fun cursor => ?_
  split
  · exact .pure _
  · split
    · exact (Keeps.take _).bind fun _ => .pure _
    · exact (Keeps.take _).bind fun _ => .fault _ _

theorem lexeme_keeps : Keeps lexeme := by
  refine .get fun cursor => ?_
  split
  · exact .pure _
  · exact .ite word_keeps (.ite number_keeps (.ite number_keeps (.ite (charLiteral_keeps _)
      (.ite (stringLiteral_keeps _) mark_keeps))))

/-! ## What separates tokens -/

theorem lineComment_keeps : Keeps lineComment := .get fun _ => .take _

theorem blockComment_keeps : Keeps blockComment :=
  .get fun _ => (Keeps.take _).bind fun _ => .get fun _ => (Keeps.take _).bind fun _ =>
    .ite (.fault _ _) (.pure _)

theorem rest_behind_line (rest : List Char) : rest.drop ((rest.takeWhile (· != '\n')).length + 1) =
      (rest.dropWhile (· != '\n')).tail := by
  have line : rest.drop (rest.takeWhile (· != '\n')).length = rest.dropWhile (· != '\n') := by
    have whole := List.takeWhile_append_dropWhile (p := (· != '\n')) (l := rest)
    conv => lhs; arg 2; rw [← whole]
    exact List.drop_left
  rw [← List.drop_drop, line, List.drop_one]

theorem directive_keeps {cursor : Cursor} (bounded : cursor.Bounded text) (fits : cursor.MarkerFits)
    (starts : cursor.atLineStart) (sign : cursor.rest.head? = some '#') : KeepsAt text cursor directive := by
  have behind := bounded.past ((cursor.rest.takeWhile (· != '\n')).length + 1)
  refine .get (.set ?_)
  split
  · exact .pure behind _
  · exact .fault behind _ _
  · next number rest reads =>
    split
    · exact .fault behind _ _
    · next following value =>
      refine ⟨fun result after runs => ?_, fun failure after runs => by cases runs⟩
      cases runs
      refine ⟨behind.rest, behind.fits, ?_, behind.column, behind.ahead⟩
      show following + (Cursor.past _ cursor).rest.count '\n' < _
      rw [Cursor.rest_past, rest_behind_line]
      exact fits starts sign number rest following reads value

theorem skipOne_keeps {cursor : Cursor} (bounded : cursor.Bounded text) (fits : cursor.MarkerFits) :
    KeepsAt text cursor skipOne := by
  refine .get ?_
  have takes (text : List Char) : Keeps (do take text; pure true) :=
    (Keeps.take _).bind fun _ => .pure _
  split
  · exact .pure bounded _
  · exact takes _ _ _ bounded
  · exact lineComment_keeps.bind (fun _ => .pure _) _ _ bounded
  · exact blockComment_keeps.bind (fun _ => .pure _) _ _ bounded
  · next character rest _ _ _ ahead =>
    refine .ite (takes _ _ _ bounded) ?_
    split
    · next sign =>
      obtain ⟨isSign, starts⟩ := Bool.and_eq_true_iff.mp sign
      have first : cursor.rest.head? = some '#' := by
        rw [ahead, List.head?_cons, beq_iff_eq.mp isSign]
      exact (directive_keeps bounded fits starts first).bind fun _ _ _ bounded => .pure bounded _
    · exact .pure bounded _

/-! ## Whole texts -/

/-- The places at which the lexer stands in a text, between what it skips and the tokens it reads. -/
inductive StandsAt (text file : String) : Cursor → Prop where
  | start : StandsAt text file (.ofText text file)
  | skip {cursor after : Cursor} : StandsAt text file cursor →
    skipOne.run cursor = .ok true after → StandsAt text file after
  | read {cursor after : Cursor} {token : Token} : StandsAt text file cursor →
    next.run cursor = .ok token after → StandsAt text file after

def MarkersFit (text file : String) : Prop :=
  ∀ cursor, StandsAt text file cursor → cursor.MarkerFits

section Run

variable {file : String} {cursor : Cursor}
  (markers : ∀ cursor, StandsAt text file cursor → cursor.Bounded text → cursor.MarkerFits)

include markers in
theorem skipWithin_keeps (budget : Nat) (stands : StandsAt text file cursor)
    (bounded : cursor.Bounded text) : KeepsAt text cursor (skipWithin budget) := by
  induction budget generalizing cursor with
  | zero => exact .pure bounded _
  | succ budget ih =>
    refine (skipOne_keeps bounded (markers cursor stands bounded)).bind
      fun skipped after skips bounded => ?_
    cases skipped with
    | true => exact ih (stands.skip skips) bounded
    | false => exact .pure bounded _

include markers in
theorem next_keeps (stands : StandsAt text file cursor) (bounded : cursor.Bounded text) :
    KeepsAt text cursor next := by
  have trivia : KeepsAt text cursor skipTrivia := .get (skipWithin_keeps markers _ stands bounded)
  refine trivia.bind fun _ between _ bounded => .modified (.get ?_)
  have inside : Cursor.Bounded text { between with atLineStart := false } :=
    ⟨bounded.rest, bounded.fits, bounded.line, bounded.column, bounded.ahead⟩
  exact (lexeme_keeps _ _ inside).bind fun _ _ _ bounded => .get (.pure bounded _)

include markers in
theorem StandsAt.bounded_of (short : text.length + 1 < Text.lineBound)
    (stands : StandsAt text file cursor) : cursor.Bounded text := by
  induction stands with
  | start => exact .ofText short file
  | skip stands skips ih => exact (skipOne_keeps ih (markers _ stands ih)).ok _ _ skips
  | read stands reads ih => exact (next_keeps markers stands ih).ok _ _ reads

include markers in
theorem tokensWithin_keeps (budget : Nat) (stands : StandsAt text file cursor)
    (bounded : cursor.Bounded text) : KeepsAt text cursor (tokensWithin budget) := by
  induction budget generalizing cursor with
  | zero => exact .pure bounded _
  | succ budget ih =>
    refine (next_keeps markers stands bounded).bind fun token after reads bounded =>
      .ite (.pure bounded _) ?_
    exact (ih (stands.read reads) bounded).bind fun _ _ _ bounded => .pure bounded _

end Run

theorem StandsAt.bounded {file : String} {cursor : Cursor}
    (short : text.length + 1 < Text.lineBound) (markers : MarkersFit text file)
    (stands : StandsAt text file cursor) : cursor.Bounded text :=
  stands.bounded_of (fun cursor stands _ => markers cursor stands) short

theorem MarkersFit.of_suffixes {file : String} (short : text.length + 1 < Text.lineBound)
    (fit : ∀ cursor : Cursor, cursor.rest <:+ text.toList → cursor.MarkerFits) : MarkersFit text file := by
  intro cursor stands
  exact fit cursor (stands.bounded_of (fun cursor _ bounded => fit cursor bounded.rest) short).rest

/-- A text that is short enough, with markers that leave room for the lines behind them, fails at a
place if it fails. -/
theorem isSyntaxError_of_tokenize {file : String} {failure : Failure}
    (short : text.length + 1 < Text.lineBound) (markers : MarkersFit text file)
    (fails : tokenize text file = .error failure) : failure.isSyntaxError := by
  have keeps : KeepsAt text (.ofText text file) tokens := .get
    (tokensWithin_keeps (fun cursor stands _ => markers cursor stands) _ .start (.ofText short file))
  have checks : (checked tokens).run (.ofText text file) = tokens.run (.ofText text file) := by
    show checked tokens _ = tokens _
    unfold checked
    split
    · next value after runs => rw [if_neg (by rw [(keeps.ok _ _ runs).fits]; decide)]; exact runs.symm
    · next value after runs => rw [if_neg (by rw [(keeps.error _ _ runs).1.fits]; decide)]; exact runs.symm
  unfold tokenize at fails
  rw [checks] at fails
  split at fails
  · cases fails
  · next runs =>
    cases fails
    exact (keeps.error _ _ runs).2

end Lexer

/-! ## The depth of annotations -/

namespace Annotation

def stepFrom (place : Option Lexeme × Mode) (token : Token) : Option Lexeme × Mode :=
  match nextMode place.1 place.2 token.lexeme with
  | some mode => (place.1, mode)
  | none => (some token.lexeme, .outside)

def placeBehind (tokens : List Token) : Option Lexeme × Mode :=
  tokens.foldl stepFrom (none, .outside)

theorem stripFrom_append (place : Option Lexeme × Mode) (before behind : List Token) :
    stripFrom place.1 place.2 (before ++ behind) = stripFrom place.1 place.2 before ++
      stripFrom (before.foldl stepFrom place).1 (before.foldl stepFrom place).2 behind := by
  induction before generalizing place with
  | nil => rfl
  | cons token before ih =>
    have step := ih (stepFrom place token)
    rw [List.cons_append, List.foldl_cons, stripFrom, stripFrom]
    cases goes : nextMode place.1 place.2 token.lexeme with
    | some mode =>
      have next : stepFrom place token = (place.1, mode) := by rw [stepFrom, goes]
      rw [next] at step ⊢
      exact step
    | none =>
      have next : stepFrom place token = (some token.lexeme, .outside) := by rw [stepFrom, goes]
      rw [next] at step ⊢
      exact congrArg (token :: ·) step

theorem strip_append (before behind : List Token) : strip (before ++ behind) = strip before ++
      stripFrom (placeBehind before).1 (placeBehind before).2 behind :=
  stripFrom_append (none, .outside) before behind

def Mode.IsCounted : Mode → Prop
  | .inside depth => 0 < depth
  | _ => True

theorem outsideMode_isCounted {last : Option Lexeme} {lexeme : Lexeme} {mode : Mode}
    (goes : outsideMode last lexeme = some mode) : mode.IsCounted := by
  unfold outsideMode at goes
  split at goes
  · split at goes
    · cases goes
      trivial
    · split at goes <;> cases goes
      trivial
  · split at goes <;> cases goes
    trivial
  · cases goes

theorem nextMode_isCounted {last : Option Lexeme} {lexeme : Lexeme} {mode next : Mode}
    (counted : mode.IsCounted) (goes : nextMode last mode lexeme = some next) : next.IsCounted := by
  unfold nextMode at goes
  split at goes
  · exact outsideMode_isCounted goes
  · cases goes
    trivial
  · cases goes
    trivial
  · cases goes
    exact Nat.one_pos
  · exact outsideMode_isCounted goes
  · cases goes
    exact Nat.succ_pos _
  · next depth =>
    have deep : 0 < depth := counted
    cases goes
    split
    · trivial
    · show 0 < depth - 1
      omega
  · cases goes
    exact counted

theorem placeBehind_isCounted (tokens : List Token) : (placeBehind tokens).2.IsCounted := by
  have step (place : Option Lexeme × Mode) (counted : place.2.IsCounted) :
      (tokens.foldl stepFrom place).2.IsCounted := by
    induction tokens generalizing place with
    | nil => exact counted
    | cons token tokens ih =>
      refine ih _ ?_
      unfold stepFrom
      split
      · next goes => exact nextMode_isCounted counted goes
      · trivial
  exact step _ trivial

end Annotation

end InlineMacro
