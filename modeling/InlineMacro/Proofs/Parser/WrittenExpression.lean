import InlineMacro.Proofs.Parser.Legible

/-!
# Expressions as they are written

The text of an expression in a place of some precedence, put together from the texts of its parts. In
each place the printer asks for a precedence that goes with the production that reads what stands
there; parentheses make up for the rest.
-/

set_option autoImplicit false

namespace InlineMacro

open InlineMacro.Parser (Derives Place)
open Printer

/-- A text has lexemes that are read as an expression in a place of the given precedence. -/
structure Expr.WrittenAs (typedefs : List String) (minimum : Nat) (tree : Expr) (text : String)
    (lexemes : List Lexeme) : Prop where
  written : Written text lexemes
  derives : Derives typedefs (.expr (.ofPrecedence minimum) tree) lexemes
  opens : OpensWell text.toList
  /-- What stands directly behind an operand goes on with numbers only. -/
  ends : Precedence.suffixed ≤ minimum → tree.isNumber = false →
    ∀ kind ∈ lexemes.getLast?, suffixSigns.all kind.endsBefore

def Expr.IsWritten (typedefs : List String) (minimum : Nat) (tree : Expr) (text : String) : Prop :=
  ∃ lexemes, tree.WrittenAs typedefs minimum text lexemes

def CType.IsWritten (typedefs : List String) (type : CType) (text : String) : Prop :=
  ∃ lexemes, Written text lexemes ∧ Derives typedefs (.typeName type) lexemes

def Expr.ArgumentIsWritten (typedefs : List String) (typesAllowed : Bool) (tree : Expr) (text : String) :
    Prop :=
  ∃ lexemes, Written text lexemes ∧ OpensWell text.toList ∧
    Derives typedefs (.argument typesAllowed tree) lexemes

def Expr.ListIsWritten (typedefs : List String) (typesAllowed : Bool) (trees : List Expr)
    (texts : List String) : Prop :=
  ∃ lexemes, Written (Text.join ", " texts) lexemes ∧ OpensWell (Text.join ", " texts).toList ∧
    Derives typedefs (.arguments typesAllowed trees) lexemes

namespace Expr.IsWritten

variable {typedefs : List String} {tree operand left right : Expr} {text leftText rightText : String}
  {own minimum : Nat}

theorem endsBefore_suffix (sign : Mark) (closing : suffixSigns.all sign.endsBefore) (lexemes : List Lexeme) :
    ∀ kind ∈ (lexemes ++ [Lexeme.mark sign]).getLast?, suffixSigns.all kind.endsBefore := by
  intro kind last
  rw [List.getLast?_append, List.getLast?_singleton] at last
  cases last
  exact closing

theorem parenthesized (written : tree.IsWritten typedefs own text) (minimum : Nat) :
    tree.IsWritten typedefs minimum (parenthesized (own < minimum) text) := by
  obtain ⟨lexemes, written, derives, opens, ends⟩ := written
  unfold Printer.parenthesized
  split
  · have opening : Written ("(" ++ text) (.mark .leftParen :: lexemes) :=
      (Written.mark .leftParen).append written (Written.endsBefore_opening (.inl rfl) [])
    refine ⟨_, opening.close (.mark .rightParen) (by decide), ?_, ?_, fun _ _ =>
      endsBefore_suffix .rightParen (by decide) _⟩
    · exact Derives.ofPrimary (.parenthesized (derives.loosen (Nat.zero_le own))) minimum
    · have paren : OpensWell "(".toList := ⟨by decide, by decide⟩
      rw [String.append_assoc, String.toList_append]
      exact paren.append _
  · next enough =>
    have looser : minimum ≤ own := Nat.le_of_not_lt (by simpa using enough)
    exact ⟨lexemes, written, derives.loosen looser, opens, fun tight => ends (tight.trans looser)⟩

/-! ## Operands -/

theorem ofLexeme {kind : Lexeme} (spelled : kind.isSpelled) (plain : Annotation.announces kind = false)
    (derives : Derives typedefs (.expr .primary tree) [kind]) (notMark : ∀ sign, kind ≠ .mark sign)
    (ends : tree.isNumber = false → suffixSigns.all kind.endsBefore)
    (minimum : Nat) : tree.IsWritten typedefs minimum kind.spelling :=
  ⟨[kind], .lexeme spelled plain, derives.ofPrimary minimum, OpensWell.of_isSpelled spelled notMark,
    fun _ notNumber other last => by cases last; exact ends notNumber⟩

theorem identifier (span : Span) {name : String} (ordinary : isOrdinary name) (absent : name ∉ typedefs)
    (minimum : Nat) : (Expr.identifier span name).IsWritten typedefs minimum name := by
  obtain ⟨spelled, plain⟩ := Bool.and_eq_true_iff.mp ordinary
  exact .ofLexeme spelled (by simpa using plain) (.identifier span absent) nofun
    (fun _ => Lexeme.identifier_endsBefore_suffix name) minimum

theorem stringLiteral {pieces : List String} (span : Span) (notEmpty : pieces ≠ [])
    (spelled : ∀ piece ∈ pieces, (Lexeme.stringLiteral piece).isSpelled) (minimum : Nat) :
    (Expr.stringLiteral span pieces).IsWritten typedefs minimum (Text.join " " pieces) := by
  have written : Written (Text.join " " (pieces.map Lexeme.stringLiteral |>.map Lexeme.spelling))
      (pieces.map Lexeme.stringLiteral) :=
    .join_spaced (List.forall_mem_map.mpr spelled) (List.forall_mem_map.mpr fun _ _ => rfl)
  have same : (pieces.map Lexeme.stringLiteral |>.map Lexeme.spelling) = pieces := by
    rw [List.map_map]
    exact List.map_id pieces
  rw [same] at written
  have opens : OpensWell (Text.join " " pieces).toList := by
    obtain ⟨first, others, rfl⟩ := List.exists_cons_of_ne_nil notEmpty
    have opens := OpensWell.of_isSpelled (spelled first List.mem_cons_self) (by simp)
    cases others with
    | nil => exact opens
    | cons =>
      rw [Text.join, String.append_assoc, String.toList_append]
      · exact opens.append _
      · simp
  refine ⟨_, written, Derives.ofPrimary (.stringLiteral span notEmpty) minimum, opens,
    fun _ _ kind last => ?_⟩
  obtain ⟨piece, -, rfl⟩ := List.mem_map.mp (List.mem_of_getLast? last)
  rfl

/-! ## Operators -/

theorem assign (span : Span) {operator : BinaryOperator} (assigns : operator.isAssignment)
    (target : left.IsWritten typedefs Precedence.unary leftText)
    (value : right.IsWritten typedefs Precedence.assignment rightText) :
    (Expr.binary span operator left right).IsWritten typedefs Precedence.assignment
      (leftText ++ " " ++ operator.symbol ++ " " ++ rightText) := by
  obtain ⟨sign, spelled, isOperator⟩ := operator.exists_sign (by rintro rfl; cases assigns)
  rw [if_pos assigns] at isOperator
  obtain ⟨first, writtenFirst, derivesFirst, opens, -⟩ := target
  obtain ⟨second, writtenSecond, derivesSecond, opensSecond, -⟩ := value
  rw [← spelled]
  refine ⟨_, (writtenFirst.spaced (.mark sign)).spaced writtenSecond, ?_, ?_, fun tight => ?_⟩
  · have target : Derives typedefs (.expr (.ofPrecedence Precedence.conditional) left) first :=
      derivesFirst.loosen (by decide)
    rw [List.append_assoc]
    exact .assign span target isOperator derivesSecond
  · simp only [String.toList_append, List.append_assoc]
    exact opens.append _
  · exact absurd tight (by decide)

theorem operate (span : Span) {operator : BinaryOperator} (notIndex : operator ≠ .index)
    (computes : operator.isAssignment = false) (first : left.IsWritten typedefs operator.precedence leftText)
    (second : right.IsWritten typedefs (operator.precedence + 1) rightText) :
    (Expr.binary span operator left right).IsWritten typedefs operator.precedence
      (leftText ++ " " ++ operator.symbol ++ " " ++ rightText) := by
  obtain ⟨sign, spelled, isOperator⟩ := operator.exists_sign notIndex
  rw [computes, if_neg Bool.false_ne_true] at isOperator
  obtain ⟨level, isLevel, same, isOperator⟩ := isOperator
  obtain ⟨front, writtenFirst, derivesFirst, opens, -⟩ := first
  obtain ⟨behind, writtenSecond, derivesSecond, -⟩ := second
  rw [← spelled, same]
  rw [same] at derivesFirst derivesSecond
  refine ⟨_, (writtenFirst.spaced (.mark sign)).spaced writtenSecond, ?_, ?_, fun tight => ?_⟩
  · rw [List.append_assoc, Place.ofPrecedence_level isLevel]
    rw [Place.ofPrecedence_level isLevel] at derivesFirst
    exact derivesFirst.binary isOperator (Derives.ofPrecedence_next isLevel derivesSecond) span
  · simp only [String.toList_append, List.append_assoc]
    exact opens.append _
  · have isBelow : level < 10 := isLevel
    exact absurd tight (by simp only [Precedence.suffixed]; omega)

variable {operator : UnaryOperator}

/-- The sign of an operator in front of its operand. What goes on with it starts with an equals sign or
an angle bracket, or with its own last character. -/
theorem exists_sign_before (inFront : operator.followsOperand = false) :
    ∃ sign : Mark, sign.spelling = operator.symbol ∧ Parser.unaryOperator? sign = some operator ∧
      (sign ≠ .slash ∧ sign ≠ .dot) ∧ OpensWell operator.symbol.toList ∧
      ∀ character ∈ sign.continuations, character = '=' ∨ character = '>' ∨
        operator.symbol.toList.getLast? = some character := by
  have found : ∃ sign ∈ Mark.byLength, sign.spelling = operator.symbol ∧
      Parser.unaryOperator? sign = some operator ∧ (sign ≠ .slash ∧ sign ≠ .dot) ∧
      sign.continuations.all fun character => character == '=' || character == '>' ||
        operator.symbol.toList.getLast? == some character := by
    cases operator <;> first | decide | cases inFront
  obtain ⟨sign, -, same, isOperator, other, continues⟩ := found
  refine ⟨sign, same, isOperator, other, ?_, fun character member => ?_⟩
  · cases operator <;> exact ⟨by decide, by decide⟩
  · simpa [or_assoc] using List.all_eq_true.mp continues character member

variable {lexemes : List Lexeme}

theorem written_signBefore {sign : Mark} {symbol : String}
    (spelled : sign.spelling = symbol) (other : sign ≠ .slash ∧ sign ≠ .dot)
    (continues : ∀ character ∈ sign.continuations, character = '=' ∨ character = '>' ∨
      symbol.toList.getLast? = some character)
    (written : Written text lexemes) (opens : OpensWell text.toList) :
    Written (signBefore symbol text) (.mark sign :: lexemes) := by
  have parted := (Written.mark sign).spaced written
  rw [spelled] at parted
  have joined (different : symbol.toList.getLast? ≠ text.toList.head?) :
      Written (symbol ++ text) (.mark sign :: lexemes) := by
    rw [← spelled]
    refine (Written.mark sign).append written fun kind own character starts => ?_
    cases own
    refine Mark.endsBefore_of_not_mem (fun member => ?_) other.1 fun isDot => absurd isDot other.2
    obtain ⟨others, same⟩ := List.head?_eq_some_iff.mp starts
    rw [same] at opens
    rcases continues character member with equals | bracket | again
    · exact opens.1 equals
    · exact opens.2 bracket
    · exact different (again.trans starts.symm)
  unfold signBefore
  split
  · next last first isLast isFirst =>
    split
    · exact parted
    · next different =>
      refine joined fun same => different ?_
      rw [isLast, isFirst] at same
      exact Option.some.inj same
  · next none =>
    refine joined fun same => ?_
    cases isFirst : text.toList.head? with
    | none =>
      rw [List.head?_eq_none_iff.mp isFirst] at opens
      exact opens
    | some first => exact none first first (same.trans isFirst) isFirst

theorem opensWell_signBefore {symbol : String} (opens : OpensWell symbol.toList) (text : String) :
    OpensWell (signBefore symbol text).toList := by
  unfold signBefore
  split
  · split
    · rw [String.append_assoc, String.toList_append]
      exact opens.append _
    · rw [String.toList_append]
      exact opens.append _
  · rw [String.toList_append]
    exact opens.append _

theorem startsLiteral_of_suffixes {first tree : Expr}
    (derives : Derives typedefs (.suffixes first tree) lexemes) (starts : first.startsLiteral) :
    tree.startsLiteral := by
  generalize phrase : Parser.Phrase.suffixes first tree = given at derives
  induction derives generalizing first with
  | noSuffixes => cases phrase; exact starts
  | index _ _ _ _ ih => cases phrase; exact ih (by simpa [Expr.startsLiteral] using starts) rfl
  | callNone _ _ ih => cases phrase; exact ih (by simpa [Expr.startsLiteral] using starts) rfl
  | call _ _ _ _ ih => cases phrase; exact ih (by simpa [Expr.startsLiteral] using starts) rfl
  | member _ _ ih => cases phrase; exact ih (by simpa [Expr.startsLiteral] using starts) rfl
  | @counted operand _ sign operator _ _ isOperator _ ih =>
    cases phrase
    have follows : operator.followsOperand := by
      cases sign <;> cases isOperator <;> rfl
    exact ih (by simp [Expr.startsLiteral, starts, follows]) rfl
  | _ => cases phrase

theorem unary_of_cast (derives : Derives typedefs (.expr .cast tree) lexemes)
    (noCast : tree.isCast = false) (noLiteral : tree.startsLiteral = false) :
    Derives typedefs (.expr .unary tree) lexemes := by
  cases derives with
  | noCast inner => exact inner
  | cast => cases noCast
  | anyOperand inner =>
    cases inner with
    | plainOperand inner => exact .noPrefix inner
    | compoundOperand _ _ _ further =>
      rw [startsLiteral_of_suffixes further rfl] at noLiteral
      cases noLiteral

theorem before (span : Span) (inFront : operator.followsOperand = false)
    (inner : operand.IsWritten typedefs Precedence.unary text)
    (unhindered : (Parser.takesUnaryOperand operator && (operand.isCast || operand.startsLiteral)) = false) :
    (Expr.unary span operator operand).IsWritten typedefs Precedence.unary
      (signBefore operator.symbol text) := by
  obtain ⟨sign, spelled, isOperator, other, opensSign, continues⟩ := exists_sign_before inFront
  obtain ⟨lexemes, written, derives, opens, -⟩ := inner
  refine ⟨_, written_signBefore spelled other continues written opens, ?_,
    opensWell_signBefore opensSign _, fun tight => absurd tight (by decide)⟩
  refine .noCast (.prefixed span isOperator ?_)
  split
  · next takes =>
    rw [takes, Bool.true_and, Bool.or_eq_false_iff] at unhindered
    exact unary_of_cast derives unhindered.1 unhindered.2
  · exact derives

theorem behind (span : Span) (follows : operator.followsOperand)
    (inner : operand.IsWritten typedefs Precedence.suffixed text) (notNumber : operand.isNumber = false) :
    (Expr.unary span operator operand).IsWritten typedefs Precedence.suffixed (text ++ operator.symbol) := by
  have found : ∃ sign ∈ Mark.byLength, sign.spelling = operator.symbol ∧
      Parser.countingOperator? sign = some operator ∧
      startsAmong suffixSigns sign.spelling ∧ suffixSigns.all sign.endsBefore := by
    cases operator <;> first | decide | cases follows
  obtain ⟨sign, -, spelled, isOperator, starts, closing⟩ := found
  obtain ⟨lexemes, written, derives, opens, ends⟩ := inner
  rw [← spelled]
  refine ⟨_, written.append (.mark sign) fun kind last character head =>
    List.all_eq_true.mp (ends (Nat.le_refl _) notNumber kind last) character
      (mem_of_startsAmong starts character head), ?_, ?_, fun _ _ =>
    endsBefore_suffix sign closing _⟩
  · exact derives.operand_append (.counted span isOperator .noSuffixes)
  · rw [String.toList_append]
    exact opens.append _

/-! ## Suffixes -/

theorem index (span : Span) (first : left.IsWritten typedefs Precedence.suffixed leftText)
    (second : right.IsWritten typedefs 0 rightText) :
    (Expr.binary span .index left right).IsWritten typedefs Precedence.suffixed
      (leftText ++ "[" ++ rightText ++ "]") := by
  obtain ⟨front, writtenFirst, derivesFirst, opens, -⟩ := first
  obtain ⟨behind, writtenSecond, derivesSecond, -⟩ := second
  have opening : Written (leftText ++ "[" ++ rightText) (front ++ [.mark .leftBracket] ++ behind) :=
    (writtenFirst.close (.mark .leftBracket) (by decide)).append writtenSecond
      (Written.endsBefore_opening (.inr rfl) _)
  refine ⟨_, opening.close (.mark .rightBracket) (by decide), ?_, ?_, fun _ _ =>
    endsBefore_suffix .rightBracket (by decide) _⟩
  · simp only [List.append_assoc]
    exact derivesFirst.operand_append (.index span derivesSecond .noSuffixes)
  · simp only [String.toList_append, List.append_assoc]
    exact opens.append _

theorem endsBefore_member {sign : Mark} (access : sign = .arrow ∨ sign = .dot) {character : Char}
    (starts : Lexer.isIdentifierStart character) : sign.endsBefore character := by
  rcases access with rfl | rfl
  · exact Mark.endsBefore_of_not_mem List.not_mem_nil nofun nofun
  · refine Mark.endsBefore_of_not_mem (fun member => ?_) nofun fun _ => ?_
    · obtain rfl : character = '.' := List.mem_singleton.mp member
      exact absurd starts (by decide)
    · by_contra digit
      rw [(Lexer.of_isDigit (by simpa using digit)).1] at starts
      cases starts

theorem member (span : Span) {name : String} (throughPointer : Bool)
    (object : operand.IsWritten typedefs Precedence.suffixed text) (notNumber : operand.isNumber = false)
    (ordinary : isOrdinary name) :
    (Expr.member span operand name throughPointer).IsWritten typedefs Precedence.suffixed
      (text ++ (if throughPointer then "->" else ".") ++ name) := by
  obtain ⟨lexemes, written, derives, opens, ends⟩ := object
  obtain ⟨sign, isSign, spelled, isAccess⟩ : ∃ sign : Mark, (sign = if throughPointer then .arrow else .dot) ∧
      (sign.spelling = if throughPointer then "->" else ".") ∧ (sign = .arrow ∨ sign = .dot) := by
    cases throughPointer
    · exact ⟨.dot, rfl, rfl, .inr rfl⟩
    · exact ⟨.arrow, rfl, rfl, .inl rfl⟩
  have starts : startsAmong suffixSigns sign.spelling := by
    rcases isAccess with rfl | rfl <;> decide
  have access : Written (text ++ sign.spelling) (lexemes ++ [.mark sign]) :=
    written.append (.mark sign) fun kind last character head =>
      List.all_eq_true.mp (ends (Nat.le_refl _) notNumber kind last) character
        (mem_of_startsAmong starts character head)
  rw [← spelled]
  refine ⟨_, access.append (.identifier ordinary) ?_, ?_, ?_, fun _ _ kind last => ?_⟩
  · intro kind last character head
    rw [List.getLast?_append, List.getLast?_singleton] at last
    cases last
    exact endsBefore_member isAccess (isIdentifierStart_of_ordinary ordinary character head)
  · rw [List.append_assoc, isSign]
    exact derives.operand_append (.member span .noSuffixes)
  · simp only [String.toList_append, List.append_assoc]
    exact opens.append _
  · rw [List.getLast?_append, List.getLast?_singleton] at last
    cases last
    exact Lexeme.identifier_endsBefore_suffix name

theorem call (span : Span) {function : Expr} {arguments : List Expr} {texts : List String}
    (callee : function.IsWritten typedefs Precedence.suffixed text) (inner : arguments = [] ∧ texts = [] ∨
      Expr.ListIsWritten typedefs (Parser.takesTypes function) arguments texts) :
    (Expr.call span function arguments).IsWritten typedefs Precedence.suffixed
      (text ++ "(" ++ Text.join ", " texts ++ ")") := by
  obtain ⟨lexemes, written, derives, opens, -⟩ := callee
  have opening : Written (text ++ "(") (lexemes ++ [.mark .leftParen]) :=
    written.close (.mark .leftParen) (by decide)
  have opensAll : OpensWell (text ++ "(" ++ Text.join ", " texts ++ ")").toList := by
    simp only [String.toList_append, List.append_assoc]
    exact opens.append _
  have closing (others : List Lexeme) :=
    endsBefore_suffix .rightParen (by decide) (lexemes ++ [.mark .leftParen] ++ others)
  rcases inner with ⟨rfl, rfl⟩ | ⟨others, writtenOthers, -, derivesOthers⟩
  · refine ⟨_, (opening.append .empty (by simp)).close (.mark .rightParen) (by decide), ?_, opensAll,
      fun _ _ => closing []⟩
    simp only [List.append_assoc]
    exact derives.operand_append (.callNone span .noSuffixes)
  · refine ⟨_, (opening.append writtenOthers (Written.endsBefore_opening (.inl rfl) _)).close
      (.mark .rightParen) (by decide), ?_, opensAll, fun _ _ => closing others⟩
    simp only [List.append_assoc]
    exact derives.operand_append (.call span derivesOthers .noSuffixes)

/-! ## What holds other expressions -/

theorem conditional (span : Span) {condition thenValue elseValue : Expr}
    {conditionText thenText elseText : String}
    (chooses : condition.IsWritten typedefs Precedence.logicalOr conditionText)
    (first : thenValue.IsWritten typedefs 0 thenText)
    (second : elseValue.IsWritten typedefs Precedence.conditional elseText) :
    (Expr.conditional span condition thenValue elseValue).IsWritten typedefs Precedence.conditional
      (conditionText ++ " ? " ++ thenText ++ " : " ++ elseText) := by
  obtain ⟨lexemes, written, derives, opens, -⟩ := chooses
  obtain ⟨front, writtenFirst, derivesFirst, -⟩ := first
  obtain ⟨behind, writtenSecond, derivesSecond, -⟩ := second
  have whole := (((written.spaced (.mark .question)).spaced writtenFirst).spaced
    (.mark .colon)).spaced writtenSecond
  have same : conditionText ++ " " ++ Mark.question.spelling ++ " " ++ thenText ++ " " ++
      Mark.colon.spelling ++ " " ++ elseText =
        conditionText ++ " ? " ++ thenText ++ " : " ++ elseText := by
    simp only [String.append_assoc]
    rfl
  rw [same] at whole
  refine ⟨_, whole, ?_, ?_, fun tight => absurd tight (by decide)⟩
  · simp only [List.append_assoc]
    exact .choice span derives derivesFirst derivesSecond
  · simp only [String.toList_append, List.append_assoc]
    exact opens.append _

theorem cast (span : Span) {target : CType} {typeText : String} (named : target.IsWritten typedefs typeText)
    (inner : operand.IsWritten typedefs Precedence.unary text) :
    (Expr.cast span target operand).IsWritten typedefs Precedence.unary
      ("(" ++ typeText ++ ") " ++ text) := by
  obtain ⟨front, writtenType, derivesType⟩ := named
  obtain ⟨lexemes, written, derives, -⟩ := inner
  have opening : Written ("(" ++ typeText) (.mark .leftParen :: front) :=
    (Written.mark .leftParen).append writtenType (Written.endsBefore_opening (.inl rfl) [])
  have whole := (opening.close (.mark .rightParen) (by decide)).spaced written
  have same : "(" ++ typeText ++ Mark.rightParen.spelling ++ " " ++ text =
      "(" ++ typeText ++ ") " ++ text := by
    simp only [String.append_assoc]
    rfl
  rw [same] at whole
  refine ⟨_, whole, ?_, ?_, fun tight => absurd tight (by decide)⟩
  · simp only [List.append_assoc]
    exact .cast span derivesType derives
  · have paren : OpensWell "(".toList := ⟨by decide, by decide⟩
    simp only [String.toList_append, List.append_assoc]
    exact paren.append _

theorem written_sizeof (written : Written text lexemes) : Written ("sizeof(" ++ text ++ ")")
      (.keyword .kwSizeof :: .mark .leftParen :: (lexemes ++ [.mark .rightParen])) := by
  have word : Written "sizeof" [.keyword .kwSizeof] :=
    show Written (Lexeme.keyword .kwSizeof).spelling _ from .lexeme rfl rfl
  exact ((word.close (.mark .leftParen) (by decide)).append written
    (Written.endsBefore_opening (.inl rfl) [.keyword .kwSizeof])).close (.mark .rightParen) (by decide)

theorem opensWell_sizeof (text : String) : OpensWell ("sizeof(" ++ text ++ ")").toList := by
  have opens : OpensWell "sizeof(".toList := ⟨by decide, by decide⟩
  rw [String.append_assoc, String.toList_append]
  exact opens.append _

theorem sizeofExpr (span : Span) (inner : operand.IsWritten typedefs 0 text) :
    (Expr.sizeofExpr span operand).IsWritten typedefs Precedence.unary ("sizeof(" ++ text ++ ")") := by
  obtain ⟨lexemes, written, derives, -⟩ := inner
  exact ⟨_, written_sizeof written,
    .noCast (.sizeofExpr span (.noPrefix (Derives.parenthesized derives).primary_suffixed)),
    opensWell_sizeof text, fun tight => absurd tight (by decide)⟩

theorem sizeofType (span : Span) {type : CType} (named : type.IsWritten typedefs text) :
    (Expr.sizeofType span type).IsWritten typedefs Precedence.unary ("sizeof(" ++ text ++ ")") := by
  obtain ⟨lexemes, written, derives⟩ := named
  exact ⟨_, written_sizeof written, .noCast (.sizeofType span derives), opensWell_sizeof text,
    fun tight => absurd tight (by decide)⟩

theorem comma (span : Span) {parts : List Expr} {texts : List String}
    (inner : Expr.ListIsWritten typedefs false parts texts) (more : 2 ≤ parts.length) :
    (Expr.comma span parts).IsWritten typedefs Precedence.comma (Text.join ", " texts) := by
  obtain ⟨lexemes, written, opens, derives⟩ := inner
  obtain ⟨first, others, rfl⟩ := List.exists_cons_of_length_pos (Nat.lt_of_succ_lt more)
  obtain ⟨front, behind, rfl, derivesFirst, derivesOthers⟩ := derives.parts_of_arguments
  have some : others ≠ [] := by
    rintro rfl
    exact Nat.lt_irrefl 1 more
  exact ⟨_, written, .sequence span derivesFirst derivesOthers some, opens,
    fun tight => absurd tight (by decide)⟩

end Expr.IsWritten

/-! ## Lists -/

theorem Expr.IsWritten.argument {typedefs : List String} {tree : Expr} {text : String}
    (written : tree.IsWritten typedefs Precedence.assignment text) (typesAllowed : Bool) :
    tree.ArgumentIsWritten typedefs typesAllowed text := by
  obtain ⟨lexemes, written, derives, opens, -⟩ := written
  exact ⟨lexemes, written, opens, .plainArgument derives⟩

namespace Expr.ListIsWritten

variable {typedefs : List String} {typesAllowed : Bool} {tree : Expr} {trees : List Expr} {text : String}
  {texts : List String}

theorem single (one : tree.ArgumentIsWritten typedefs typesAllowed text) :
    Expr.ListIsWritten typedefs typesAllowed [tree] [text] := by
  obtain ⟨lexemes, written, opens, derives⟩ := one
  exact ⟨lexemes, written, opens, .lastArgument derives⟩

theorem cons (one : tree.ArgumentIsWritten typedefs typesAllowed text)
    (others : Expr.ListIsWritten typedefs typesAllowed trees texts) :
    Expr.ListIsWritten typedefs typesAllowed (tree :: trees) (text :: texts) := by
  obtain ⟨lexemes, written, opens, derives⟩ := one
  obtain ⟨more, writtenMore, opensMore, derivesMore⟩ := others
  cases texts with
  | nil => cases opensMore
  | cons next texts =>
    refine ⟨_, written.join_cons writtenMore nofun, ?_, .moreArguments derives derivesMore⟩
    rw [Text.join, String.append_assoc, String.toList_append]
    · exact opens.append _
    · exact nofun

end Expr.ListIsWritten

end InlineMacro
