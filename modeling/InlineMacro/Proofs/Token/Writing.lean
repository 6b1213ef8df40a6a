import InlineMacro.Proofs.Token.Scanning
import InlineMacro.Syntax.Printer

/-!
# Text that is written piece by piece

A text written from spellings, with the lexemes that it is scanned as. Most pieces end in front of a
blank, a comma, a parenthesis or a brace, whatever they are; what is left to see to are operator
signs in front of operands and behind them. Lines are written one by one, for each ends in front of the
next.
-/

set_option autoImplicit false

namespace InlineMacro

/-- A text is scanned as the given lexemes, none of which starts an annotation. -/
structure Written (text : String) (lexemes : List Lexeme) : Prop where
  scans : Scans text.toList lexemes
  plain : ∀ kind ∈ lexemes, Annotation.announces kind = false

def closers : List Char := [' ', '[', ']', '(', ')', ',', '\x7b', '\x7d', ';', ':', '\n']

def suffixSigns : List Char := ['.', '-', '+']

def startsAmong (characters : List Char) (text : String) : Bool :=
  text.toList.head?.all characters.contains

theorem mem_of_startsAmong {characters : List Char} {text : String}
    (starts : startsAmong characters text) : ∀ character ∈ text.toList.head?, character ∈ characters := by
  intro character head
  rw [startsAmong, head, Option.all_some] at starts
  exact List.contains_iff_mem.mp starts

/-- Characters that start with nothing an operator sign in front of them goes on with, except perhaps
with the last character of the sign again. -/
def OpensWell : List Char → Prop
  | [] => False
  | first :: _ => first ≠ '=' ∧ first ≠ '>'

theorem OpensWell.append {text : List Char} (opens : OpensWell text) (rest : List Char) :
    OpensWell (text ++ rest) := by
  cases text with
  | nil => cases opens
  | cons => exact opens

theorem OpensWell.of_isWord {word : List Char} (isWord : Lexeme.isWord word) : OpensWell word := by
  cases word with
  | nil => cases isWord
  | cons first others =>
    have starts := (Bool.and_eq_true_iff.mp isWord).1
    constructor <;> rintro rfl <;> exact absurd starts (by decide)

theorem OpensWell.of_quotedBody? {quote : Char} {spelling body : List Char}
    (isQuote : quote = '\'' ∨ quote = '"')
    (found : Lexeme.quotedBody? quote spelling = some body) : OpensWell spelling := by
  obtain ⟨leading, rfl, -, rfl | isPrefix, -⟩ := Lexer.quotedBody?_eq_some found
  · rcases isQuote with rfl | rfl <;> exact ⟨by decide, by decide⟩
  · exact (OpensWell.of_isWord (Lexer.isWord_of_literalPrefix isPrefix)).append _

theorem OpensWell.of_isNumber {spelling : List Char} (isNumber : Lexeme.isNumber spelling) :
    OpensWell spelling := by
  obtain ⟨first, others, rfl, digit | ⟨rfl, -⟩⟩ := Lexer.exists_of_isNumber isNumber
  · constructor <;> rintro rfl <;> exact absurd digit (by decide)
  · exact ⟨by decide, by decide⟩

theorem OpensWell.of_isSpelled {kind : Lexeme} (spelled : kind.isSpelled)
    (notMark : ∀ sign, kind ≠ .mark sign) : OpensWell kind.spelling.toList := by
  cases kind with
  | intLiteral | floatLiteral => exact .of_isNumber (Bool.and_eq_true_iff.mp spelled).1
  | charLiteral =>
    obtain ⟨body, found, -⟩ := Lexer.exists_of_charLiteral spelled
    exact .of_quotedBody? (.inl rfl) found
  | stringLiteral =>
    obtain ⟨body, found⟩ := Option.isSome_iff_exists.mp spelled
    exact .of_quotedBody? (.inr rfl) found
  | identifier => exact .of_isWord (Bool.and_eq_true_iff.mp spelled).1
  | keyword word => exact .of_isWord (Lexer.keyword_spelled word).1
  | mark sign => exact absurd rfl (notMark sign)
  | endOfFile => cases spelled

theorem Mark.endsBefore_closers (sign : Mark) : closers.all sign.endsBefore := by
  cases sign <;> decide

theorem Lexeme.endsBefore_closer {kind : Lexeme} (spelled : kind.isSpelled) {character : Char}
    (closes : character ∈ closers) : kind.endsBefore character := by
  cases kind with
  | mark sign => exact List.all_eq_true.mp sign.endsBefore_closers character closes
  | endOfFile => cases spelled
  | charLiteral | stringLiteral => rfl
  | intLiteral | floatLiteral =>
    have each : closers.all fun character =>
        !Lexer.isNumberCharacter character && character != '+' && character != '-' := by decide
    exact List.all_eq_true.mp each character closes
  | identifier | keyword =>
    have each : closers.all fun character =>
        !Lexer.isIdentifierCharacter character && character != '\'' && character != '"' := by decide
    exact List.all_eq_true.mp each character closes

def Mark.continuations (sign : Mark) : List Char :=
  byLength.filterMap fun longer =>
    if sign.spelling.toList.isPrefixOf longer.spelling.toList then
      (longer.spelling.toList.drop sign.spelling.toList.length).head?
    else none

theorem Mark.endsBefore_of_not_mem {sign : Mark} {character : Char}
    (other : character ∉ sign.continuations) (notSlash : sign ≠ .slash)
    (notNumber : sign = .dot → character.isDigit = false) : sign.endsBefore character := by
  have noLonger : ∀ longer ∈ byLength,
      (sign.spelling.toList ++ [character]).isPrefixOf longer.spelling.toList = false := by
    intro longer member
    by_contra starts
    rw [Bool.not_eq_false, List.isPrefixOf_iff_prefix] at starts
    obtain ⟨behind, same⟩ := starts
    refine other (List.mem_filterMap.mpr ⟨longer, member, ?_⟩)
    rw [← same, List.append_assoc, if_pos (List.isPrefixOf_iff_prefix.mpr (List.prefix_append _ _)),
      List.drop_left]
    rfl
  have slashes : (sign == slash) = false := beq_eq_false_iff_ne.mpr notSlash
  have dots : (sign == dot && character.isDigit) = false := by
    by_cases isDot : sign = .dot
    · rw [notNumber isDot, Bool.and_false]
    · rw [beq_eq_false_iff_ne.mpr isDot, Bool.false_and]
  rw [Mark.endsBefore, slashes, dots, Bool.false_and, Bool.not_false, Bool.and_true, Bool.and_true,
    List.all_eq_true]
  exact fun longer member => by rw [noLonger longer member, Bool.not_false]

theorem Lexeme.identifier_endsBefore_suffix (name : String) :
    suffixSigns.all (Lexeme.identifier name).endsBefore := by
  have each : suffixSigns.all fun character =>
      !Lexer.isIdentifierCharacter character && character != '\'' && character != '"' := by decide
  exact each

namespace Scans

theorem isSpelled {text : List Char} {lexemes : List Lexeme} (scans : Scans text lexemes) :
    ∀ kind ∈ lexemes, kind.isSpelled := by
  induction scans with
  | nil => exact fun _ member => absurd member List.not_mem_nil
  | blank _ _ ih => exact ih
  | lexeme spelled _ _ ih => exact List.forall_mem_cons.mpr ⟨spelled, ih⟩

theorem join_spaced {kinds : List Lexeme} (spelled : ∀ kind ∈ kinds, kind.isSpelled) :
    Scans (Text.join " " (kinds.map Lexeme.spelling)).toList kinds := by
  induction kinds with
  | nil => exact .nil
  | cons kind kinds ih =>
    rw [List.forall_mem_cons] at spelled
    cases kinds with
    | nil =>
      rw [← List.append_nil (Text.join _ _).toList]
      exact .lexeme spelled.1 (fun _ none => by cases none) .nil
    | cons next kinds =>
      have isBlank : Text.isBlank ' ' := by decide
      have behind := Scans.blank isBlank (ih spelled.2)
      have ends : ∀ character ∈ [' '].head?, kind.endsBefore character := by
        rintro _ ⟨⟩
        exact Lexeme.endsBefore_closer spelled.1 (by decide)
      rw [List.map_cons, List.map_cons, Text.join, String.toList_append, String.toList_append,
        List.append_assoc]
      · exact .lexeme spelled.1 ends behind
      · exact nofun

end Scans

namespace Written

variable {text rest : String} {lexemes more : List Lexeme}

theorem append (first : Written text lexemes) (second : Written rest more)
    (ends : ∀ kind ∈ lexemes.getLast?, ∀ character ∈ rest.toList.head?, kind.endsBefore character) :
    Written (text ++ rest) (lexemes ++ more) where
  scans := by
    rw [String.toList_append]
    exact first.scans.append second.scans ends
  plain := List.forall_mem_append.mpr ⟨first.plain, second.plain⟩

theorem endsBefore_opening {sign : Mark} (opening : sign = .leftParen ∨ sign = .leftBracket)
    (others : List Lexeme) : ∀ kind ∈ (others ++ [Lexeme.mark sign]).getLast?,
      ∀ character ∈ rest.toList.head?, kind.endsBefore character := by
  intro kind last character _
  rw [List.getLast?_append, List.getLast?_singleton] at last
  cases last
  rcases opening with rfl | rfl <;> exact Mark.endsBefore_of_not_mem List.not_mem_nil nofun nofun

theorem close (first : Written text lexemes) (second : Written rest more)
    (closes : startsAmong closers rest) : Written (text ++ rest) (lexemes ++ more) :=
  first.append second fun kind last character head =>
    Lexeme.endsBefore_closer (first.scans.isSpelled kind (List.mem_of_getLast? last))
      (mem_of_startsAmong closes character head)

theorem empty : Written "" [] := ⟨.nil, fun _ member => absurd member List.not_mem_nil⟩

theorem blank (written : Written text lexemes) : Written (" " ++ text) lexemes where
  scans := by
    rw [String.toList_append]
    exact .blank (by decide) written.scans
  plain := written.plain

theorem spaced (first : Written text lexemes) (second : Written rest more) :
    Written (text ++ " " ++ rest) (lexemes ++ more) := by
  rw [String.append_assoc]
  refine first.close second.blank ?_
  rw [startsAmong, String.toList_append]
  rfl

theorem lexeme {kind : Lexeme} (spelled : kind.isSpelled) (plain : Annotation.announces kind = false) :
    Written kind.spelling [kind] where
  scans := by
    rw [← List.append_nil kind.spelling.toList]
    exact .lexeme spelled (fun _ none => by cases none) .nil
  plain := by simpa using plain

theorem mark (sign : Mark) : Written sign.spelling [.mark sign] :=
  show Written (Lexeme.mark sign).spelling [.mark sign] from lexeme rfl rfl

theorem join_spaced {kinds : List Lexeme} (spelled : ∀ kind ∈ kinds, kind.isSpelled)
    (plain : ∀ kind ∈ kinds, Annotation.announces kind = false) :
    Written (Text.join " " (kinds.map Lexeme.spelling)) kinds :=
  ⟨.join_spaced spelled, plain⟩

theorem join_cons {others : List String} (first : Written text lexemes)
    (second : Written (Text.join ", " others) more) (some : others ≠ []) :
    Written (Text.join ", " (text :: others)) (lexemes ++ .mark .comma :: more) := by
  obtain ⟨next, others, rfl⟩ := List.exists_cons_of_ne_nil some
  have comma : Written (text ++ ",") (lexemes ++ [.mark .comma]) :=
    first.close (.mark .comma) (by decide)
  have all := comma.spaced second
  have same : text ++ "," ++ " " = text ++ ", " := String.append_assoc
  rwa [List.append_assoc, List.singleton_append, same] at all

theorem indented (depth : Nat) (written : Written text lexemes) :
    Written (Printer.line depth text) lexemes := by
  unfold Printer.line Printer.indentation
  induction depth with
  | zero => rwa [Text.repeated, String.empty_append]
  | succ depth ih =>
    have blanks : "    " = " " ++ (" " ++ (" " ++ (" " ++ ""))) := rfl
    rw [Text.repeated, blanks]
    simp only [String.append_assoc, String.empty_append]
    exact ih.blank.blank.blank.blank

theorem endLine (first : Written text lexemes) (second : Written rest more) :
    Written (text ++ ("\n" ++ rest)) (lexemes ++ more) := by
  have behind : Written ("\n" ++ rest) more :=
    ⟨by rw [String.toList_append]; exact .blank (by decide) second.scans, second.plain⟩
  refine first.close behind ?_
  rw [startsAmong, String.toList_append]
  rfl

end Written

/-! ## Lines -/

/-- Lines are scanned as lexemes, each on its own. -/
inductive LinesWritten : List String → List Lexeme → Prop where
  | nil : LinesWritten [] []
  | cons {text : String} {texts : List String} {lexemes more : List Lexeme}
    (first : Written text lexemes) (others : LinesWritten texts more) :
    LinesWritten (text :: texts) (lexemes ++ more)

namespace LinesWritten

variable {text : String} {texts rest : List String} {lexemes more : List Lexeme}

theorem single (written : Written text lexemes) : LinesWritten [text] lexemes := by
  rw [← List.append_nil lexemes]
  exact .cons written .nil

theorem append (first : LinesWritten texts lexemes) (second : LinesWritten rest more) :
    LinesWritten (texts ++ rest) (lexemes ++ more) := by
  induction first with
  | nil => exact second
  | cons written _ ih =>
    rw [List.append_assoc]
    exact .cons written ih

theorem followed (lines : LinesWritten texts lexemes) (last : Written text more) :
    Written (Printer.unlines texts ++ text) (lexemes ++ more) := by
  induction lines with
  | nil => rwa [Printer.unlines, List.map_nil, String.join_nil, String.empty_append]
  | cons first _ ih =>
    rw [Printer.unlines, List.map_cons, String.join_cons, String.append_assoc, String.append_assoc,
      List.append_assoc]
    exact first.endLine ih

theorem written (lines : LinesWritten texts lexemes) : Written (Printer.unlines texts) lexemes := by
  have whole := lines.followed .empty
  rwa [String.append_empty, List.append_nil] at whole

theorem indented (depth : Nat) (lines : LinesWritten texts lexemes) :
    LinesWritten (texts.map (Printer.line depth)) lexemes := by
  induction lines with
  | nil => exact .nil
  | cons first _ ih => exact .cons (first.indented depth) ih

theorem braced (depth : Nat) (lines : LinesWritten texts more) (first : Written text lexemes) :
    Written (text ++ Printer.bodyText depth texts)
      (lexemes ++ .mark .leftBrace :: (more ++ [.mark .rightBrace])) := by
  have inside := (lines.indented (depth + 1)).followed ((Written.mark .rightBrace).indented depth)
  have whole := (first.spaced (.mark .leftBrace)).endLine inside
  have same : text ++ " " ++ Mark.leftBrace.spelling ++
      ("\n" ++ (Printer.unlines (texts.map (Printer.line (depth + 1))) ++
        Printer.line depth Mark.rightBrace.spelling)) = text ++ Printer.bodyText depth texts := by
    have opening : " \x7b\n" = " " ++ ("\x7b" ++ "\n") := rfl
    have joined : Printer.unlines (texts.map (Printer.line (depth + 1))) =
        String.join (texts.map fun entry => Printer.indentation (depth + 1) ++ entry ++ "\n") := by
      rw [Printer.unlines, List.map_map]
      rfl
    rw [Printer.bodyText, opening, joined]
    simp only [String.append_assoc]
    rfl
  rw [same, List.append_assoc] at whole
  exact whole

end LinesWritten

end InlineMacro
