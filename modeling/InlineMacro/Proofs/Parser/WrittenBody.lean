import InlineMacro.Proofs.Parser.StatementPhrases
import InlineMacro.Proofs.Parser.WrittenTree

/-!
# Initializers, bodies and declarations as they are written

The texts of what stands in braces and of whole declarations, put together from the texts of their
parts. A body of a record or an enumeration takes a line for each entry, and its entries end in front of
the line break; behind it the declarator goes on as behind a tag.
-/

set_option autoImplicit false

namespace InlineMacro

open InlineMacro.Parser (Derives Derivation Declarator Specifiers DeclaresAll GivesValue)
open Printer

variable {types : List String} {text rest : String} {lexemes more : List Lexeme}

/-! ## Initializers -/

def Initializer.IsWritten (types : List String) (tree : Initializer) (text : String) : Prop :=
  ∃ lexemes, Written text lexemes ∧ Derives types (.initializer tree) lexemes

def Initializer.IsBraced (types : List String) (tree : Initializer) (text : String) : Prop :=
  ∃ lexemes, Written text lexemes ∧ startsAmong closers text ∧ Derives types (.braced tree) lexemes

def Initializer.EntryIsWritten (types : List String) (tree : Initializer) (text : String) : Prop :=
  ∃ lexemes, Written text lexemes ∧ Derives types (.entry tree) lexemes

def Initializer.ListIsWritten (types : List String) (items : List Initializer) (texts : List String) :
    Prop :=
  ∃ lexemes, Written (Text.join ", " texts) lexemes ∧ Derives types (.entries items) lexemes

def Designator.ListIsWritten (types : List String) (designators : List Designator) (text : String) :
    Prop :=
  ∃ lexemes, Written text lexemes ∧ Derives types (.designators designators) lexemes ∧
    startsAmong ['[', '.'] text

namespace Initializer

variable {tree : Initializer} {items : List Initializer} {texts : List String}

theorem IsWritten.expression {value : Expr} (span : Span)
    (written : value.IsWritten types Precedence.assignment text) :
    (Initializer.expression span value).IsWritten types text := by
  obtain ⟨lexemes, written, derives, -⟩ := written
  exact ⟨lexemes, written, .plainInitializer span derives⟩

theorem IsBraced.initializer (braced : tree.IsBraced types text) : tree.IsWritten types text := by
  obtain ⟨lexemes, written, -, derives⟩ := braced
  exact ⟨lexemes, written, .bracedInitializer derives⟩

theorem IsWritten.entry (written : tree.IsWritten types text) : tree.EntryIsWritten types text := by
  obtain ⟨lexemes, written, derives⟩ := written
  exact ⟨lexemes, written, .plainEntry derives⟩

theorem EntryIsWritten.designated {designators : List Designator} (span : Span)
    (first : Designator.ListIsWritten types designators text) (some : designators ≠ [])
    (second : tree.IsWritten types rest) :
    (Initializer.designated span designators tree).EntryIsWritten types (text ++ " = " ++ rest) := by
  obtain ⟨front, writtenFirst, derivesFirst, -⟩ := first
  obtain ⟨behind, writtenSecond, derivesSecond⟩ := second
  have whole := (writtenFirst.spaced (.mark .equal)).spaced writtenSecond
  have same : text ++ " " ++ Mark.equal.spelling ++ " " ++ rest = text ++ " = " ++ rest := by
    simp only [String.append_assoc]
    rfl
  rw [same, List.append_assoc] at whole
  exact ⟨_, whole, .designated span derivesFirst some derivesSecond⟩

theorem ListIsWritten.single (one : tree.EntryIsWritten types text) : ListIsWritten types [tree] [text] := by
  obtain ⟨lexemes, written, derives⟩ := one
  exact ⟨lexemes, written, .lastEntry derives⟩

theorem ListIsWritten.cons (one : tree.EntryIsWritten types text) (others : ListIsWritten types items texts)
    (some : texts ≠ []) : ListIsWritten types (tree :: items) (text :: texts) := by
  obtain ⟨lexemes, written, derives⟩ := one
  obtain ⟨more, writtenMore, derivesMore⟩ := others
  exact ⟨_, written.join_cons writtenMore some, .moreEntries derives derivesMore⟩

theorem IsBraced.nil (span : Span) : (Initializer.list span []).IsBraced types "\x7b \x7d" :=
  ⟨_, (Written.mark .leftBrace).spaced (.mark .rightBrace), by decide, .braced span .noEntries⟩

theorem IsBraced.list (span : Span) (inner : ListIsWritten types items texts) :
    (Initializer.list span items).IsBraced types ("\x7b " ++ Text.join ", " texts ++ " \x7d") := by
  obtain ⟨lexemes, written, derives⟩ := inner
  have whole := ((Written.mark .leftBrace).spaced written).spaced (.mark .rightBrace)
  have same : Mark.leftBrace.spelling ++ " " ++ Text.join ", " texts ++ " " ++ Mark.rightBrace.spelling =
      "\x7b " ++ Text.join ", " texts ++ " \x7d" := by
    simp only [String.append_assoc]
    rfl
  rw [same] at whole
  refine ⟨_, whole, ?_, .braced span derives⟩
  rw [startsAmong, String.append_assoc, String.toList_append]
  rfl

end Initializer

namespace Designator.ListIsWritten

variable {designators : List Designator}

theorem nil : ListIsWritten types [] "" := ⟨[], .empty, .noDesignators, by decide⟩

theorem endsBefore {kind : Lexeme} (ends : kind = .mark .rightBracket ∨ ∃ name, kind = .identifier name)
    (starts : startsAmong ['[', '.'] rest) : ∀ character ∈ rest.toList.head?, kind.endsBefore character := by
  intro character head
  have among := mem_of_startsAmong starts character head
  rcases ends with rfl | ⟨name, rfl⟩
  · have each : ['[', '.'].all (Lexeme.mark .rightBracket).endsBefore := by decide
    exact List.all_eq_true.mp each character among
  · have each : ['[', '.'].all fun character =>
        !Lexer.isIdentifierCharacter character && character != '\'' && character != '"' := by decide
    exact List.all_eq_true.mp each character among

theorem index {value : Expr} (one : value.IsWritten types Precedence.conditional text)
    (others : ListIsWritten types designators rest) :
    ListIsWritten types (.index value :: designators) ("[" ++ text ++ "]" ++ rest) := by
  obtain ⟨between, written, derives, -⟩ := one
  obtain ⟨more, writtenMore, derivesMore, starts⟩ := others
  have opening : Written ("[" ++ text) (.mark .leftBracket :: between) :=
    (Written.mark .leftBracket).append written (Written.endsBefore_opening (.inr rfl) [])
  refine ⟨_, (opening.close (.mark .rightBracket) (by decide)).append writtenMore ?_, ?_, ?_⟩
  · intro kind last
    rw [List.getLast?_append, List.getLast?_singleton] at last
    cases last
    exact endsBefore (.inl rfl) starts
  · simp only [List.cons_append, List.append_assoc]
    exact .indexDesignator derives derivesMore
  · simp only [startsAmong, String.append_assoc, String.toList_append]
    rfl

theorem member {name : String} (ordinary : isOrdinary name) (others : ListIsWritten types designators rest) :
    ListIsWritten types (.member name :: designators) ("." ++ name ++ rest) := by
  obtain ⟨more, writtenMore, derivesMore, starts⟩ := others
  have access : Written ("." ++ name) ([.mark .dot] ++ [.identifier name]) :=
    (Written.mark .dot).append (.identifier ordinary) fun kind last character head => by
      cases last
      exact Expr.IsWritten.endsBefore_member (.inr rfl)
        (isIdentifierStart_of_ordinary ordinary character head)
  refine ⟨_, access.append writtenMore fun kind last => ?_, .memberDesignator name derivesMore, ?_⟩
  · cases last
    exact endsBefore (.inr ⟨name, rfl⟩) starts
  · simp only [startsAmong, String.append_assoc, String.toList_append]
    rfl

end Designator.ListIsWritten

theorem Expr.IsWritten.compoundLiteral {type : CType} {value : Initializer} {typeText : String}
    (span : Span) (named : type.IsWritten types typeText) (list : value.IsBraced types text) :
    (Expr.compoundLiteral span type value).IsWritten types Precedence.suffixed
      ("(" ++ typeText ++ ")" ++ text) := by
  obtain ⟨front, writtenType, derivesType⟩ := named
  obtain ⟨lexemes, written, starts, derives⟩ := list
  have opening : Written ("(" ++ typeText) (.mark .leftParen :: front) :=
    (Written.mark .leftParen).append writtenType (Written.endsBefore_opening (.inl rfl) [])
  refine ⟨_, (opening.close (.mark .rightParen) (by decide)).close written starts, ?_, ?_, fun _ _ => ?_⟩
  · have operand := Derives.compoundOperand span derivesType derives .noSuffixes
    simp only [List.append_nil, List.cons_append, List.append_assoc] at operand ⊢
    exact operand
  · have paren : OpensWell "(".toList := ⟨by decide, by decide⟩
    simp only [String.toList_append, List.append_assoc]
    exact paren.append _
  · cases derives with
    | braced =>
      rw [← List.cons_append, ← List.append_assoc]
      exact endsBefore_suffix .rightBrace (by decide) _

theorem CType.PartsWritten.argument {type : CType} {parts : String × String} (span : Span)
    (parted : type.PartsWritten types none parts) :
    (Expr.typeArgument span type).ArgumentIsWritten types true (specifiersAnd parts) := by
  obtain ⟨lexemes, written, derives⟩ := parted.typeName
  obtain ⟨_, _, _, given, -⟩ := parted
  refine ⟨lexemes, written, ?_, .typeArgument span derives⟩
  unfold specifiersAnd
  split
  · exact given.startsWell
  · simp only [String.toList_append, List.append_assoc]
    exact given.startsWell.append _

/-! ## Bodies of types -/

def Field.ListIsWritten (types : List String) (fields : List Field) (texts : List String) : Prop :=
  ∃ lexemes, LinesWritten texts lexemes ∧ Derives types (.fields fields) lexemes

/-- Texts, with commas behind all but the last, are lines that are read as the constants of an
enumeration. -/
def Enumerator.ListIsWritten (types : List String) (constants : List Enumerator) (texts : List String) :
    Prop :=
  ∃ lexemes, LinesWritten (withCommas texts) lexemes ∧ Derives types (.enumerators constants) lexemes

def Enumerator.IsWritten (types : List String) (constant : Enumerator) (text : String) : Prop :=
  ∃ lexemes, Written text lexemes ∧ Derives types (.enumerator constant) lexemes

namespace Field.ListIsWritten

variable {fields : List Field} {texts : List String} {type : CType} {name : Option String}
  {parts : String × String}

theorem nil : ListIsWritten types [] [] := ⟨[], .nil, .noFields⟩

theorem cons (parted : type.PartsWritten types name parts) (others : ListIsWritten types fields texts) :
    ListIsWritten types (⟨name, type, none⟩ :: fields) ((specifiersAnd parts ++ ";") :: texts) := by
  obtain ⟨base, spec, declared, lexemes, written, given, derives, rfl, rfl⟩ := parted.written
  obtain ⟨more, lines, derivesMore⟩ := others
  refine ⟨_, .cons (written.close (.mark .semicolon) (by decide)) lines, ?_⟩
  simp only [List.append_assoc, List.singleton_append]
  cases lexemes with
  | nil =>
    rw [derives.declarator_nil]
    exact .bareField given.derives derivesMore
  | cons => exact .field given.derives derives nofun derivesMore

theorem consWide {width : Expr} (parted : type.PartsWritten types name parts)
    (wide : width.IsWritten types Precedence.conditional text) (others : ListIsWritten types fields texts) :
    ListIsWritten types (⟨name, type, some width⟩ :: fields)
      ((specifiersAnd parts ++ " : " ++ text ++ ";") :: texts) := by
  obtain ⟨base, spec, declared, lexemes, written, given, derives, rfl, rfl⟩ := parted.written
  obtain ⟨behind, writtenWidth, derivesWidth, -⟩ := wide
  obtain ⟨more, lines, derivesMore⟩ := others
  have whole := ((written.spaced (.mark .colon)).spaced writtenWidth).close (.mark .semicolon) (by decide)
  have same : specifiersAnd parts ++ " " ++ Mark.colon.spelling ++ " " ++ text ++ Mark.semicolon.spelling =
      specifiersAnd parts ++ " : " ++ text ++ ";" := by
    simp only [String.append_assoc]
    rfl
  rw [same] at whole
  refine ⟨_, .cons whole lines, ?_⟩
  simp only [List.append_assoc, List.singleton_append]
  exact .wideField given.derives derives derivesWidth derivesMore

end Field.ListIsWritten

namespace Enumerator

variable {constant : Enumerator} {constants : List Enumerator} {texts : List String} {name : String}

theorem IsWritten.plain (ordinary : isOrdinary name) : IsWritten types ⟨name, none⟩ name :=
  ⟨_, .identifier ordinary, .plainEnumerator name⟩

theorem IsWritten.valued {value : Expr} (ordinary : isOrdinary name)
    (written : value.IsWritten types Precedence.conditional text) :
    IsWritten types ⟨name, some value⟩ (name ++ " = " ++ text) := by
  obtain ⟨lexemes, written, derives, -⟩ := written
  have whole := ((Written.identifier ordinary).spaced (.mark .equal)).spaced written
  have same : name ++ " " ++ Mark.equal.spelling ++ " " ++ text = name ++ " = " ++ text := by
    simp only [String.append_assoc]
    rfl
  rw [same] at whole
  exact ⟨_, whole, .valuedEnumerator name derives⟩

theorem ListIsWritten.nil : ListIsWritten types [] [] := ⟨[], .nil, .noEnumerators⟩

theorem ListIsWritten.single (one : constant.IsWritten types text) :
    ListIsWritten types [constant] [text] := by
  obtain ⟨lexemes, written, derives⟩ := one
  exact ⟨lexemes, .single written, .lastEnumerator derives⟩

theorem ListIsWritten.cons (one : constant.IsWritten types text)
    (others : ListIsWritten types constants texts) (some : texts ≠ []) :
    ListIsWritten types (constant :: constants) (text :: texts) := by
  obtain ⟨lexemes, written, derives⟩ := one
  obtain ⟨more, lines, derivesMore⟩ := others
  obtain ⟨next, texts, rfl⟩ := List.exists_cons_of_ne_nil some
  refine ⟨_, .cons (written.close (.mark .comma) (by decide)) lines, ?_⟩
  rw [List.append_assoc]
  exact .moreEnumerators derives derivesMore

end Enumerator

theorem Written.tag {word : Keyword} {tag : Option String} (plain : word ≠ .kwAsm)
    (ordinary : ∀ name ∈ tag, isOrdinary name) :
    Written (tagText word.spelling tag) (.keyword word :: tag.toList.map .identifier) := by
  have keyword : Written (Lexeme.keyword word).spelling [.keyword word] :=
    .lexeme rfl (by cases word <;> first | rfl | exact absurd rfl plain)
  cases tag with
  | none => exact keyword
  | some name => exact keyword.spaced (.identifier (ordinary name rfl))

theorem CType.WordsWritten.ofBody {word : Keyword} {kind : Parser.BodiedType} {type : CType}
    {tag : Option String} {texts : List String} (depth : Nat)
    (isBodied : Parser.bodiedTypeOfKeyword? word = some kind) (ordinary : ∀ name ∈ tag, isOrdinary name)
    (lines : LinesWritten texts lexemes) (derives : Derives types (.bodied kind type)
      (tag.toList.map .identifier ++ .mark .leftBrace :: (lexemes ++ [.mark .rightBrace]))) :
    ∃ lexemes, type.WordsWritten types (tagText word.spelling tag ++ bodyText depth texts) lexemes := by
  have plain : word ≠ .kwAsm := by
    rintro rfl
    cases isBodied
  have whole := lines.braced depth (.tag plain ordinary)
  obtain ⟨rest, same⟩ : ∃ rest, tagText word.spelling tag = word.spelling ++ rest := by
    cases tag with
    | none => exact ⟨"", (String.append_empty).symm⟩
    | some name => exact ⟨" " ++ name, String.append_assoc⟩
  rw [same, String.append_assoc] at whole ⊢
  exact ⟨_, .bodied isBodied whole derives⟩

theorem RecordKind.exists_word (kind : RecordKind) : ∃ word : Keyword,
    word.spelling = kind.keyword ∧ Parser.bodiedTypeOfKeyword? word = some (.record kind) := by
  cases kind
  · exact ⟨.kwStruct, rfl, rfl⟩
  · exact ⟨.kwUnion, rfl, rfl⟩

/-! ## Declarations -/

def StorageClass.word : StorageClass → Keyword
  | auto => .kwAuto
  | static => .kwStatic
  | external => .kwExtern
  | register => .kwRegister
  | typeAlias => .kwTypedef

def leadingWords (storage : Option StorageClass) (isInline : Bool) : List Keyword :=
  storage.toList.map StorageClass.word ++ if isInline then [.kwInline] else []

theorem Written.leading (storage : Option StorageClass) (isInline : Bool) (written : Written text lexemes) :
    Written (storageText storage ++ inlineText isInline ++ text)
      ((leadingWords storage isInline).map .keyword ++ lexemes) := by
  have behindInline : Written (inlineText isInline ++ text)
      ((if isInline then [Keyword.kwInline] else []).map .keyword ++ lexemes) := by
    cases isInline with
    | false => rwa [inlineText, if_neg Bool.false_ne_true, String.empty_append]
    | true =>
      have word : Written (Lexeme.keyword .kwInline).spelling [.keyword .kwInline] := .lexeme rfl rfl
      exact word.spaced written
  rw [leadingWords, List.map_append, List.append_assoc, String.append_assoc]
  cases storage with
  | none => rwa [storageText, String.empty_append]
  | some storage =>
    have word : Written (Lexeme.keyword storage.word).spelling [.keyword storage.word] :=
      .lexeme rfl (by cases storage <;> rfl)
    have same : (Lexeme.keyword storage.word).spelling = storage.keyword := by cases storage <;> rfl
    rw [same] at word
    exact word.spaced behindInline

theorem CType.SpecifiersWritten.leading {base : CType}
    (specifiers : base.SpecifiersWritten types text lexemes) (storage : Option StorageClass)
    (isInline : Bool) : Derives types (.specifiers ⟨storage, isInline, base⟩)
      ((leadingWords storage isInline).map .keyword ++ lexemes) := by
  have adds : ∃ isEmpty, (leadingWords storage isInline).foldlM addWord? {} =
      some ⟨storage, isInline, {}, {}, none, isEmpty⟩ := by
    rcases storage with _ | storage <;> cases isInline <;> try cases storage
    all_goals exact ⟨_, rfl⟩
  obtain ⟨isEmpty, adds⟩ := adds
  obtain ⟨result, derives, hasType, notEmpty, rfl, rfl, rfl⟩ := specifiers.words storage isInline isEmpty
  exact .specifiers (derives.words_of_foldlM adds) hasType notEmpty

theorem exists_writtenValue {value : Option Initializer} {depth : Nat}
    (each : ∀ initializer ∈ value, initializer.IsWritten types (initializerText depth initializer)) :
    ∃ lexemes, Written (initialValueText depth value) lexemes ∧ GivesValue types value lexemes ∧
      startsAmong closers (initialValueText depth value) := by
  cases value with
  | none => exact ⟨[], .empty, .absent, rfl⟩
  | some initializer =>
    obtain ⟨lexemes, written, derives⟩ := each initializer rfl
    have whole := ((Written.mark .equal).spaced written).blank
    have same : " " ++ (Mark.equal.spelling ++ " " ++ initializerText depth initializer) =
        initialValueText depth (some initializer) := by
      rw [initialValueText, ← String.append_assoc, ← String.append_assoc]
      rfl
    rw [same] at whole
    refine ⟨_, whole, .present derives, ?_⟩
    rw [initialValueText, startsAmong, String.toList_append]
    rfl

/-- A declaration of a single name is written so that it reads the same: its type among the names of
types before it, its value among those behind it. -/
structure Declaration.IsWritten (types : List String) (depth : Nat) (declaration : Declaration) : Prop where
  type : declaration.type.PartsWritten types (some declaration.name)
    (declaratorParts depth none declaration.name declaration.type)
  value : ∀ initializer ∈ declaration.initializer,
    initializer.IsWritten (declaration.typesBehind types) (initializerText depth initializer)

namespace Declaration.IsWritten

variable {declaration : Declaration} {depth : Nat}

theorem exists_declares (written : declaration.IsWritten types depth) (words : Specifiers)
    (storage : words.storage = declaration.storage) (isInline : words.isInline = declaration.isInline) :
    ∃ lexemes, Written ((declaratorParts depth none declaration.name declaration.type).2 ++
        initialValueText depth declaration.initializer) lexemes ∧
      Parser.Declares words declaration.type.core types declaration lexemes := by
  obtain ⟨-, declared, lexemes, -, inner, named, same⟩ := written.type
  obtain ⟨more, writtenValue, gives, closes⟩ := exists_writtenValue written.value
  exact ⟨_, inner.written.close writtenValue closes, .intro inner.derives named same storage isInline gives⟩

theorem exists_parts (written : declaration.IsWritten types depth) : ∃ lexemes more,
    Written (storageText declaration.storage ++ inlineText declaration.isInline ++
      declaratorText depth declaration.type declaration.name ++
        initialValueText depth declaration.initializer) (lexemes ++ more) ∧
    Derives types (.specifiers ⟨declaration.storage, declaration.isInline, declaration.type.core⟩) lexemes ∧
    Parser.Declares ⟨declaration.storage, declaration.isInline, declaration.type.core⟩
      declaration.type.core types declaration more := by
  obtain ⟨spec, declared, lexemes, given, inner, named, same⟩ := written.type
  obtain ⟨last, writtenValue, gives, closes⟩ := exists_writtenValue written.value
  have front : Written (declaratorText depth declaration.type declaration.name) (spec ++ lexemes) := by
    unfold declaratorText specifiersAnd
    split
    · next none =>
      rw [inner.written.scans.eq_nil (by rw [String.isEmpty_iff.mp none]; rfl), List.append_nil]
      exact given.written
    · exact given.written.spaced inner.written
  have whole := (front.leading declaration.storage declaration.isInline).close writtenValue closes
  refine ⟨_, lexemes ++ last, ?_, given.leading declaration.storage declaration.isInline,
    .intro inner.derives named same rfl rfl gives⟩
  simp only [List.append_assoc] at whole ⊢
  exact whole

theorem exists_text (written : declaration.IsWritten types depth) : ∃ lexemes,
    Written (declarationText depth declaration) lexemes ∧
    DeclaresAll types [declaration] lexemes (declaration.typesBehind types) := by
  obtain ⟨lexemes, more, front, specifiers, declares⟩ := written.exists_parts
  refine ⟨_, front.close (.mark .semicolon) (by decide), ?_⟩
  have all := DeclaresAll.intro specifiers declares (.nil _)
  rwa [List.nil_append, ← List.append_assoc] at all

end Declaration.IsWritten

end InlineMacro
