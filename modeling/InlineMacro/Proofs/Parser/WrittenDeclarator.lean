import InlineMacro.Proofs.Parser.WrittenExpression

/-!
# Declarators as they are written

A declarator is written from the name outwards. At each layer of the type what has been written stands
for a declarator whose layers, put on the type that is left, give the whole type. Where brackets or
parameters come next, it has no pointers of its own in front.
-/

set_option autoImplicit false

namespace InlineMacro

open InlineMacro.Parser (Derives Derivation Declarator SpecifierWords Specifiers)
open Printer

/-! ## Words of specifiers -/

def BasicType.keywords : BasicType → List Keyword
  | void => [.kwVoid]
  | bool => [.kwBool]
  | char => [.kwChar]
  | signedChar => [.kwSigned, .kwChar]
  | unsignedChar => [.kwUnsigned, .kwChar]
  | short => [.kwShort]
  | unsignedShort => [.kwUnsigned, .kwShort]
  | int => [.kwInt]
  | unsignedInt => [.kwUnsigned, .kwInt]
  | long => [.kwLong]
  | unsignedLong => [.kwUnsigned, .kwLong]
  | longLong => [.kwLong, .kwLong]
  | unsignedLongLong => [.kwUnsigned, .kwLong, .kwLong]
  | float => [.kwFloat]
  | double => [.kwDouble]
  | longDouble => [.kwLong, .kwDouble]

def Qualifiers.keywords (qualifiers : Qualifiers) : List Keyword :=
  (if qualifiers.isConst then [.kwConst] else []) ++
    (if qualifiers.isVolatile then [.kwVolatile] else []) ++
    (if qualifiers.isRestrict then [.kwRestrict] else [])

theorem Written.keywords {words : List Keyword} (plain : Keyword.kwAsm ∉ words) :
    Written (Text.join " " (words.map Keyword.spelling)) (words.map Lexeme.keyword) := by
  have same : words.map Keyword.spelling = (words.map Lexeme.keyword).map Lexeme.spelling := by
    rw [List.map_map]
    rfl
  rw [same]
  refine .join_spaced (List.forall_mem_map.mpr fun _ _ => rfl) (List.forall_mem_map.mpr ?_)
  intro word member
  cases word <;> first | rfl | exact absurd member plain

theorem BasicType.written (kind : BasicType) : Written kind.specifier (kind.keywords.map Lexeme.keyword) := by
  have same : kind.specifier = Text.join " " (kind.keywords.map Keyword.spelling) := by
    cases kind <;> rfl
  rw [same]
  exact .keywords (by cases kind <;> decide)

theorem Qualifiers.written (qualifiers : Qualifiers) :
    Written qualifiers.text (qualifiers.keywords.map Lexeme.keyword) := by
  obtain ⟨isConst, isVolatile, isRestrict⟩ := qualifiers
  have same : Qualifiers.text ⟨isConst, isVolatile, isRestrict⟩ =
      Text.join " " ((Qualifiers.keywords ⟨isConst, isVolatile, isRestrict⟩).map Keyword.spelling) := by
    cases isConst <;> cases isVolatile <;> cases isRestrict <;> rfl
  rw [same]
  exact .keywords (by cases isConst <;> cases isVolatile <;> cases isRestrict <;> decide)

theorem Qualifiers.foldlM_keywords (qualifiers : Qualifiers) :
    qualifiers.keywords.foldlM Parser.addQualifier? {} = some qualifiers := by
  obtain ⟨isConst, isVolatile, isRestrict⟩ := qualifiers
  cases isConst <;> cases isVolatile <;> cases isRestrict <;> rfl

theorem Qualifiers.opensWell (qualifiers : Qualifiers) :
    qualifiers.text = "" ∨ OpensWell qualifiers.text.toList := by
  obtain ⟨isConst, isVolatile, isRestrict⟩ := qualifiers
  cases isConst <;> cases isVolatile <;> cases isRestrict <;>
    first | exact .inl rfl | exact .inr ⟨by decide, by decide⟩

theorem Qualifiers.keywords_of_isEmpty {qualifiers : Qualifiers} (none : qualifiers.isEmpty) :
    qualifiers.keywords = [] := by
  obtain ⟨isConst, isVolatile, isRestrict⟩ := qualifiers
  cases isConst <;> cases isVolatile <;> cases isRestrict <;> first | rfl | cases none

def addWord? (read : SpecifierWords) (word : Keyword) : Option SpecifierWords :=
  if Parser.bodiedTypeOfKeyword? word = none then
    (read.addKeyword? word).filter fun next => next.words.fits
  else none

variable {typedefs : List String} {lexemes more : List Lexeme}

theorem Parser.Derives.words_of_foldlM {words : List Keyword} {read next result : SpecifierWords}
    (adds : words.foldlM addWord? read = some next) (further : Derives typedefs (.words next result) more) :
    Derives typedefs (.words read result) (words.map .keyword ++ more) := by
  induction words generalizing read with
  | nil =>
    cases adds
    exact further
  | cons word words ih =>
    rw [List.foldlM_cons] at adds
    obtain ⟨between, addsOne, addsMore⟩ := Option.bind_eq_some_iff.mp adds
    unfold addWord? at addsOne
    split at addsOne
    · next notBodied =>
      obtain ⟨found, fits⟩ := Option.filter_eq_some_iff.mp addsOne
      exact .word notBodied found fits (ih addsMore)
    · cases addsOne

def CType.plainText : CType → String
  | .basic kind => kind.specifier
  | .named name => name
  | .record kind tag _ => tagText kind.keyword tag
  | .enumeration tag _ => tagText "enum" tag
  | _ => ""

variable {type : CType}

theorem declaratorParts_of_isPlain (plain : type.isPlain) (depth : Nat)
    (pending : Option Qualifiers) (inner : String) :
    declaratorParts depth pending inner type = (qualifiedSpecifier pending type.plainText, inner) := by
  unfold CType.isPlain at plain
  split at plain
  · rfl
  · rfl
  · rfl
  · rfl
  · cases plain

/-- A text is the words of a type that is written in one piece. Behind words that give no type they give
the type, with the qualifiers that have been read before. -/
structure CType.WordsWritten (typedefs : List String) (type : CType) (text : String)
    (lexemes : List Lexeme) : Prop where
  written : Written text lexemes
  opens : ∃ kind, lexemes.head? = some kind ∧ Parser.opensType typedefs kind
  startsWell : OpensWell text.toList
  derives : ∀ (storage : Option StorageClass) (isInline : Bool) (qualifiers : Qualifiers) (isEmpty : Bool),
    ∃ result : SpecifierWords,
      Derives typedefs (.words ⟨storage, isInline, qualifiers, {}, none, isEmpty⟩ result) lexemes ∧
      result.hasType ∧ result.isEmpty = false ∧ result.storage = storage ∧ result.isInline = isInline ∧
      result.base = if qualifiers.isEmpty then type else .qualified qualifiers type

theorem BasicType.wordsWritten (kind : BasicType) : (CType.basic kind).WordsWritten typedefs kind.specifier
    (kind.keywords.map Lexeme.keyword) where
  written := kind.written
  opens := by cases kind <;> exact ⟨_, rfl, rfl⟩
  startsWell := by cases kind <;> exact ⟨by decide, by decide⟩
  derives storage isInline qualifiers isEmpty := by
    have adds : ∃ words, kind.keywords.foldlM addWord?
        ⟨storage, isInline, qualifiers, {}, none, isEmpty⟩ =
          some ⟨storage, isInline, qualifiers, words, none, false⟩ ∧ words.any ∧ words.resolve = kind := by
      cases kind <;> exact ⟨_, rfl, rfl, rfl⟩
    obtain ⟨words, adds, any, same⟩ := adds
    have derives : Derives typedefs (.words _ _) _ := .words_of_foldlM adds .noWords
    rw [List.append_nil] at derives
    refine ⟨_, derives, ?_, rfl, rfl, rfl, ?_⟩
    · rw [SpecifierWords.hasType, any, Bool.or_true]
    · simp only [SpecifierWords.base, Option.getD_none, same]

theorem CType.WordsWritten.bodied {word : Keyword} {kind : Parser.BodiedType} {text : String}
    {body : List Lexeme} (isBodied : Parser.bodiedTypeOfKeyword? word = some kind)
    (written : Written (word.spelling ++ text) (.keyword word :: body))
    (derives : Derives typedefs (.bodied kind type) body) :
    type.WordsWritten typedefs (word.spelling ++ text) (.keyword word :: body) where
  written := written
  opens := by cases word <;> first | exact ⟨_, rfl, rfl⟩ | cases isBodied
  startsWell := by
    rw [String.toList_append]
    exact (OpensWell.of_isWord (Lexer.keyword_spelled word).1).append _
  derives storage isInline qualifiers isEmpty := by
    have words : Derives typedefs (.words ⟨storage, isInline, qualifiers, {}, none, isEmpty⟩ _) _ :=
      .bodiedWord isBodied rfl derives .noWords
    rw [List.append_nil] at words
    exact ⟨_, words, rfl, rfl, rfl, rfl, rfl⟩

theorem CType.WordsWritten.tagged (word : Keyword) {kind : Parser.BodiedType} {tag : String}
    (isBodied : Parser.bodiedTypeOfKeyword? word = some kind) (ordinary : isOrdinary tag)
    (body : Derives typedefs (.bodied kind type) [.identifier tag]) :
    type.WordsWritten typedefs (word.spelling ++ " " ++ tag) [.keyword word, .identifier tag] := by
  have plain : Keyword.kwAsm ∉ [word] := by
    rw [List.mem_singleton]
    rintro rfl
    cases isBodied
  have written := (Written.keywords plain).spaced (.identifier ordinary)
  rw [List.map_singleton, Text.join, String.append_assoc] at written
  rw [String.append_assoc]
  exact .bodied isBodied written body

theorem CType.WordsWritten.named {name : String} (ordinary : isOrdinary name) (isType : name ∈ typedefs) :
    (CType.named name).WordsWritten typedefs name [.identifier name] where
  written := .identifier ordinary
  opens := ⟨_, rfl, List.contains_iff_mem.mpr isType⟩
  startsWell := .of_isSpelled (Bool.and_eq_true_iff.mp ordinary).1 nofun
  derives _ _ _ _ := ⟨_, .typedefName rfl isType .noWords, rfl, rfl, rfl, rfl, rfl⟩

theorem CType.exists_wordsWritten (plain : type.isPlain) (legible : type.isLegible typedefs) :
    ∃ lexemes, type.WordsWritten typedefs type.plainText lexemes := by
  cases type with
  | basic kind => exact ⟨_, kind.wordsWritten⟩
  | named name =>
    simp only [CType.isLegible, Bool.and_eq_true] at legible
    exact ⟨_, .named legible.1 (List.contains_iff_mem.mp legible.2)⟩
  | record kind tag fields =>
    cases fields with
    | some => cases plain
    | none =>
      cases tag with
      | none => simp [CType.isLegible] at legible
      | some tag =>
        simp only [CType.isLegible] at legible
        cases kind with
        | struct => exact ⟨_, .tagged .kwStruct rfl legible (.recordTag _ tag)⟩
        | union => exact ⟨_, .tagged .kwUnion rfl legible (.recordTag _ tag)⟩
  | enumeration tag enumerators =>
    cases enumerators with
    | some => cases plain
    | none =>
      cases tag with
      | none => simp [CType.isLegible] at legible
      | some tag =>
        simp only [CType.isLegible] at legible
        exact ⟨_, .tagged .kwEnum rfl legible (.enumerationTag tag)⟩
  | pointer | array | function | qualified => cases plain

/-- A text is read as specifiers that give a type, behind a storage class and `inline` or without them. -/
structure CType.SpecifiersWritten (typedefs : List String) (base : CType) (text : String)
    (lexemes : List Lexeme) : Prop where
  written : Written text lexemes
  opens : ∀ kind ∈ lexemes.head?, Parser.opensType typedefs kind
  startsWell : OpensWell text.toList
  words : ∀ (storage : Option StorageClass) (isInline isEmpty : Bool), ∃ result : SpecifierWords,
    Derives typedefs (.words ⟨storage, isInline, {}, {}, none, isEmpty⟩ result) lexemes ∧
    result.hasType ∧ result.isEmpty = false ∧ result.storage = storage ∧ result.isInline = isInline ∧
    result.base = base

theorem CType.SpecifiersWritten.derives {base : CType} {text : String}
    (specifiers : base.SpecifiersWritten typedefs text lexemes) :
    Derives typedefs (.specifiers ⟨none, false, base⟩) lexemes := by
  obtain ⟨result, derives, hasType, notEmpty, noStorage, notInline, same⟩ := specifiers.words none false true
  have given := Derives.specifiers derives hasType notEmpty
  rwa [noStorage, notInline, same] at given

theorem CType.WordsWritten.specifiers {text : String}
    (words : type.WordsWritten typedefs text lexemes) : type.SpecifiersWritten typedefs text lexemes where
  written := words.written
  opens kind head := by
    obtain ⟨first, found, opens⟩ := words.opens
    rw [found] at head
    cases head
    exact opens
  startsWell := words.startsWell
  words storage isInline isEmpty := words.derives storage isInline {} isEmpty

theorem CType.WordsWritten.qualified {text : String}
    (words : type.WordsWritten typedefs text lexemes) {qualifiers : Qualifiers}
    (some : qualifiers.isEmpty = false) :
    (CType.qualified qualifiers type).SpecifiersWritten typedefs (qualifiers.text ++ " " ++ text)
      (qualifiers.keywords.map .keyword ++ lexemes) where
  written := qualifiers.written.spaced words.written
  opens kind head := by
    have first : ∃ word others, qualifiers.keywords = word :: others ∧
        Parser.opensType typedefs (.keyword word) := by
      obtain ⟨isConst, isVolatile, isRestrict⟩ := qualifiers
      cases isConst <;> cases isVolatile <;> cases isRestrict <;>
        first | exact ⟨_, _, rfl, rfl⟩ | cases some
    obtain ⟨word, others, same, opens⟩ := first
    rw [same] at head
    cases head
    exact opens
  startsWell := by
    have opens : OpensWell qualifiers.text.toList := by
      refine qualifiers.opensWell.resolve_left ?_
      obtain ⟨isConst, isVolatile, isRestrict⟩ := qualifiers
      cases isConst <;> cases isVolatile <;> cases isRestrict <;> first | decide | cases some
    simp only [String.toList_append, List.append_assoc]
    exact opens.append _
  words storage isInline isEmpty := by
    have adds : qualifiers.keywords.foldlM addWord? ⟨storage, isInline, {}, {}, none, isEmpty⟩ =
        Option.some ⟨storage, isInline, qualifiers, {}, none, false⟩ := by
      obtain ⟨isConst, isVolatile, isRestrict⟩ := qualifiers
      cases isConst <;> cases isVolatile <;> cases isRestrict <;> first | rfl | cases some
    obtain ⟨result, derives, hasType, notEmpty, sameStorage, sameInline, same⟩ :=
      words.derives storage isInline qualifiers false
    rw [some] at same
    exact ⟨result, derives.words_of_foldlM adds, hasType, notEmpty, sameStorage, sameInline, same⟩

/-! ## Declarators from the name outwards -/

def Parser.Declarator.IsDirect (typedefs : List String) (declared : Declarator) (lexemes : List Lexeme) :
    Prop :=
  ∃ inner layers front behind, lexemes = front ++ behind ∧ Derives typedefs (.core inner) front ∧
    Derives typedefs (.layers layers) behind ∧
    declared = ⟨inner.name, layers.reverse ++ inner.derivations⟩

/-- A text is read as a declarator, with no pointers in front if `direct`. -/
structure Parser.Declarator.WrittenAs (typedefs : List String) (direct : Bool) (declared : Declarator)
    (text : String) (lexemes : List Lexeme) : Prop where
  written : Written text lexemes
  derives : if direct then declared.IsDirect typedefs lexemes
    else Derives typedefs (.declarator declared) lexemes
  opens : text = "" ∨ OpensWell text.toList

namespace Parser.Declarator

variable {declared : Declarator} {text : String}

theorem IsDirect.derives (direct : declared.IsDirect typedefs lexemes) :
    Derives typedefs (.declarator declared) lexemes := by
  obtain ⟨inner, layers, front, behind, rfl, core, further, rfl⟩ := direct
  exact .declarator .noPointers core further

theorem IsDirect.append {layer : Derivation} (direct : declared.IsDirect typedefs lexemes)
    (last : Derives typedefs (.layers [layer]) more) :
    IsDirect typedefs ⟨declared.name, layer :: declared.derivations⟩ (lexemes ++ more) := by
  obtain ⟨inner, layers, front, behind, rfl, core, further, rfl⟩ := direct
  refine ⟨inner, layers ++ [layer], front, behind ++ more, List.append_assoc .., core,
    further.layers_append last, ?_⟩
  rw [List.reverse_append, List.reverse_singleton, List.singleton_append, List.cons_append]

theorem pointer_cons {qualifiers : Qualifiers} (derives : Derives typedefs (.declarator declared) lexemes) :
    Derives typedefs (.declarator ⟨declared.name, .pointer qualifiers :: declared.derivations⟩)
      (.mark .star :: (qualifiers.keywords.map .keyword ++ lexemes)) := by
  cases derives with
  | declarator pointers core layers =>
    rw [← List.append_assoc, ← List.cons_append]
    exact .declarator (.pointer qualifiers.foldlM_keywords pointers) core layers

namespace WrittenAs

theorem any {direct : Bool} (written : declared.WrittenAs typedefs direct text lexemes) :
    declared.WrittenAs typedefs false text lexemes where
  written := written.written
  derives := by
    have derives := written.derives
    cases direct with
    | true => exact IsDirect.derives derives
    | false => exact derives
  opens := written.opens

theorem ofDirect (written : declared.WrittenAs typedefs true text lexemes) (direct : Bool) :
    declared.WrittenAs typedefs direct text lexemes := by
  cases direct with
  | true => exact written
  | false => exact written.any

theorem name {name : String} (ordinary : isOrdinary name) :
    WrittenAs typedefs true { name := some name } name [.identifier name] where
  written := .identifier ordinary
  derives := ⟨_, [], _, [], rfl, .name name, .noLayers, rfl⟩
  opens := .inr (.of_isSpelled (Bool.and_eq_true_iff.mp ordinary).1 nofun)

theorem noName : WrittenAs typedefs true {} "" [] where
  written := .empty
  derives := ⟨_, [], _, [], rfl, .noName, .noLayers, rfl⟩
  opens := .inl rfl

variable {rest : String}

theorem opens_append {text : String} (opens : text = "" ∨ OpensWell text.toList)
    (opensRest : OpensWell rest.toList) : OpensWell (text ++ rest).toList := by
  rcases opens with rfl | opens
  · rwa [String.empty_append]
  · rw [String.toList_append]
    exact opens.append _

theorem layer {layer : Derivation} (inner : declared.WrittenAs typedefs true text lexemes)
    (written : Written rest more) (derives : Derives typedefs (.layers [layer]) more)
    (closes : startsAmong closers rest) (opens : OpensWell rest.toList) :
    WrittenAs typedefs true ⟨declared.name, layer :: declared.derivations⟩ (text ++ rest)
      (lexemes ++ more) where
  written := inner.written.close written closes
  derives := IsDirect.append inner.derives derives
  opens := .inr (opens_append inner.opens opens)

theorem star (written : Written rest more) (opens : rest = "" ∨ OpensWell rest.toList) :
    Written ("*" ++ rest) (.mark .star :: more) := by
  refine (Written.mark .star).append written fun kind last character head => ?_
  cases last
  refine Mark.endsBefore_of_not_mem (fun member => ?_) nofun nofun
  have goesOn : Mark.star.continuations = ['='] := by decide
  rw [goesOn, List.mem_singleton] at member
  subst member
  rcases opens with rfl | opens
  · cases head
  · obtain ⟨others, same⟩ := List.head?_eq_some_iff.mp head
    rw [same] at opens
    exact opens.1 rfl

theorem pointer (qualifiers : Qualifiers) (inner : declared.WrittenAs typedefs false text lexemes) :
    WrittenAs typedefs false ⟨declared.name, .pointer qualifiers :: declared.derivations⟩
      (pointerText qualifiers text) (.mark .star :: (qualifiers.keywords.map .keyword ++ lexemes)) where
  written := by
    have qualified : Written ("*" ++ qualifiers.text) (.mark .star :: qualifiers.keywords.map .keyword) :=
      star qualifiers.written qualifiers.opensWell
    unfold pointerText
    split
    · next none =>
      rw [Qualifiers.keywords_of_isEmpty none]
      exact star inner.written inner.opens
    · split
      · next none =>
        rw [inner.written.scans.eq_nil (by rw [String.isEmpty_iff.mp none]; rfl), List.append_nil]
        exact qualified
      · exact qualified.spaced inner.written
  derives := pointer_cons inner.derives
  opens := by
    have opens : OpensWell "*".toList := ⟨by decide, by decide⟩
    have starts : ∃ rest, pointerText qualifiers text = "*" ++ rest := by
      unfold pointerText
      split
      · exact ⟨_, rfl⟩
      · split
        · exact ⟨_, rfl⟩
        · exact ⟨_, by rw [String.append_assoc, String.append_assoc]⟩
    obtain ⟨rest, same⟩ := starts
    rw [same, String.toList_append]
    exact .inr (opens.append _)

theorem enclosed (inner : declared.WrittenAs typedefs false text (.mark .star :: lexemes)) :
    WrittenAs typedefs true declared ("(" ++ text ++ ")")
      (.mark .leftParen :: .mark .star :: (lexemes ++ [.mark .rightParen])) where
  written := by
    have opening : Written ("(" ++ text) (.mark .leftParen :: .mark .star :: lexemes) :=
      (Written.mark .leftParen).append inner.written (Written.endsBefore_opening (.inl rfl) [])
    exact opening.close (.mark .rightParen) (by decide)
  derives := ⟨declared, [], _, [], (List.append_nil _).symm, .nested inner.derives, .noLayers, rfl⟩
  opens := by
    have paren : OpensWell "(".toList := ⟨by decide, by decide⟩
    rw [String.append_assoc, String.toList_append]
    exact .inr (paren.append _)

end WrittenAs

end Parser.Declarator

end InlineMacro
