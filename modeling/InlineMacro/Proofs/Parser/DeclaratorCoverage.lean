import InlineMacro.Proofs.Parser.Coverage

/-!
# Specifiers and declarators cover their tokens

What each production reads has the names and bodies that are written in the tokens it takes. The
productions take the parsers of their parts as arguments, and so do the lemmas about them.
-/

set_option autoImplicit false

namespace InlineMacro

namespace Parser

variable {word : String → Prop}

/-! ## Contents -/

def Derivation.content : Derivation → Content
  | .pointer _ => 0
  | .array size => optionalContent Expr.content size
  | .function parameters _ => listContent Parameter.content parameters

def Declarator.content (declarator : Declarator) : Content :=
  .ofOption declarator.name + listContent Derivation.content declarator.derivations

def Specifiers.content (specifiers : Specifiers) : Content := specifiers.base.content

def SpecifierWords.content (read : SpecifierWords) : Content :=
  optionalContent CType.content read.named

theorem Derivation.content_apply (type : CType) (derivation : Derivation) :
    (derivation.apply type).content = type.content + derivation.content := by
  cases derivation with
  | pointer qualifiers => exact (type.content_pointer qualifiers).trans (add_zero _).symm
  | array size => exact type.content_array size
  | function parameters isVariadic => exact type.content_function parameters isVariadic

theorem Declarator.content_typeFrom (declarator : Declarator) (base : CType) :
    (declarator.typeFrom base).content =
      base.content + listContent Derivation.content declarator.derivations := by
  unfold typeFrom
  induction declarator.derivations generalizing base with
  | nil => exact (add_zero _).symm
  | cons first rest ih =>
    rw [List.foldl_cons, ih, Derivation.content_apply, listContent_cons, add_assoc]

theorem Declarator.content_declared (declarator : Declarator) (base : CType) :
    .ofOption declarator.name + (declarator.typeFrom base).content = base.content + declarator.content := by
  rw [content_typeFrom, add_left_comm]
  rfl

variable {α : Type}

theorem listContent_filterMap_id (content : α → Content) (parts : List (Option α)) :
    listContent content (parts.filterMap id) = listContent (optionalContent content) parts := by
  induction parts with
  | nil => rfl
  | cons part parts ih =>
    cases part with
    | none =>
      rw [List.filterMap_cons_none rfl, ih, listContent_cons, optionalContent_none, zero_add]
    | some value =>
      have first : List.filterMap id (some value :: parts) = value :: parts.filterMap id := rfl
      rw [first, listContent_cons, ih, listContent_cons, optionalContent_some]

theorem listContent_reverse (content : α → Content) (parts : List α) :
    listContent content parts.reverse = listContent content parts := by
  induction parts with
  | nil => rfl
  | cons part parts ih =>
    rw [List.reverse_cons, listContent_append, ih, listContent_cons, listContent_cons,
      listContent_nil, add_zero, add_comm]

/-! ## Types that are written once more -/

/-- A type as specifiers give it. -/
inductive IsSpecified : CType → Prop where
  | basic (kind : BasicType) : IsSpecified (.basic kind)
  | named (name : String) : IsSpecified (.named name)
  | record (kind : RecordKind) (tag : Option String) (fields : Option (List Field)) :
      IsSpecified (.record kind tag fields)
  | enumeration (tag : Option String) (enumerators : Option (List Enumerator)) :
      IsSpecified (.enumeration tag enumerators)
  | qualified {inner : CType} (qualifiers : Qualifiers) (specified : IsSpecified inner) :
      IsSpecified (.qualified qualifiers inner)

theorem IsSpecified.names_withoutBodies {type : CType} (specified : IsSpecified type) :
    ∀ name ∈ type.withoutBodies.content.1, name ∈ type.content.1 := by
  induction specified with
  | basic | named => exact fun _ member => member
  | record kind tag fields =>
    cases tag with
    | none => exact fun _ member => member
    | some tag =>
      cases fields with
      | none => exact fun _ member => member
      | some fields =>
        intro name member
        change name ∈ (CType.record kind (some tag) none).content.1 at member
        rw [CType.content_reference] at member
        rw [CType.content_record]
        exact Multiset.mem_add.mpr (.inl (Multiset.mem_add.mpr (.inl member)))
  | enumeration tag enumerators =>
    cases tag with
    | none => exact fun _ member => member
    | some tag =>
      cases enumerators with
      | none => exact fun _ member => member
      | some enumerators =>
        intro name member
        change name ∈ (CType.enumeration (some tag) none).content.1 at member
        rw [CType.content_enumerationReference] at member
        rw [CType.content_enumeration]
        exact Multiset.mem_add.mpr (.inl (Multiset.mem_add.mpr (.inl member)))
  | qualified qualifiers specified ih =>
    rw [CType.withoutBodies, CType.content_qualified, CType.content_qualified]
    exact ih

theorem IsSpecified.bodies_withoutBodies {type : CType} (specified : IsSpecified type) :
    type.withoutBodies.content.2 = 0 ∨
      ∃ body, body ∈ type.withoutBodies.content.tagless ∧ body ∈ type.content.tagless := by
  have tagless {body : CType} {content : Content} (member : body ∈ content.2)
      (isTagless : body.isTagless) : body ∈ content.tagless :=
    Multiset.mem_filter.mpr ⟨member, isTagless⟩
  induction specified with
  | basic | named => exact .inl rfl
  | record kind tag fields =>
    cases tag with
    | some tag =>
      refine .inl ?_
      change (CType.record kind (some tag) none).content.2 = 0
      rw [CType.content_reference]
      rfl
    | none =>
      cases fields with
      | none =>
        refine .inl ?_
        change (CType.record kind none none).content.2 = 0
        rw [CType.content_reference]
        rfl
      | some fields =>
        have member : CType.record kind none (some fields) ∈
            (CType.record kind none (some fields)).content.2 := by
          rw [CType.content_record]
          exact Multiset.mem_add.mpr (.inr (Multiset.mem_singleton_self _))
        exact .inr ⟨_, tagless member rfl, tagless member rfl⟩
  | enumeration tag enumerators =>
    cases tag with
    | some tag =>
      refine .inl ?_
      change (CType.enumeration (some tag) none).content.2 = 0
      rw [CType.content_enumerationReference]
      rfl
    | none =>
      cases enumerators with
      | none =>
        refine .inl ?_
        change (CType.enumeration none none).content.2 = 0
        rw [CType.content_enumerationReference]
        rfl
      | some enumerators =>
        have member : CType.enumeration none (some enumerators) ∈
            (CType.enumeration none (some enumerators)).content.2 := by
          rw [CType.content_enumeration]
          exact Multiset.mem_add.mpr (.inr (Multiset.mem_singleton_self _))
        exact .inr ⟨_, tagless member rfl, tagless member rfl⟩
  | qualified qualifiers specified ih =>
    rw [CType.withoutBodies, CType.content_qualified, CType.content_qualified]
    exact ih

theorem Reads.again {parser : Parse α} {base : CType} (specified : IsSpecified base)
    {known : Content} {content : α → Content}
    (reads : Reads word parser (base.content + known + base.withoutBodies.content) content) :
    Reads word parser (base.content + known) content := by
  refine .repeated (fun name member => ?_) (fun single => ?_) reads
  · exact Multiset.mem_add.mpr (.inl (specified.names_withoutBodies name member))
  · refine specified.bodies_withoutBodies.resolve_right ?_
    rintro ⟨body, again, first⟩
    rw [Content.tagless_add, Content.tagless_add] at single
    exact Multiset.disjoint_left.mp (Multiset.nodup_add.mp single).2.2
      (Multiset.mem_add.mpr (.inl first)) again

/-! ## Declarators and types with bodies -/

section Declarators

variable {specifiers : Parse Specifiers} {declarator nested : Parse Declarator}
  {assignment conditional : Parse Expr} {parameters : Parse Derivation}
  (reads : Reads word specifiers 0 Specifiers.content)
  (specified : Delivers specifiers fun given => IsSpecified given.base)
  (declares : Reads word declarator 0 Declarator.content)
  (assigns : Reads word assignment 0 Expr.content)
  (chooses : Reads word conditional 0 Expr.content)

include assigns in
theorem arraySize_reads : Reads word (arraySize assignment) 0 (optionalContent Expr.content) := by
  refine .skip (.dropped (.acceptKeyword rfl)) fun _ =>
    .skip (.dropped .qualifiers) fun _ => .get fun state => ?_
  have closes : ∀ (known : Content) (size : Option Expr),
      optionalContent Expr.content size = known → Reads word (do expectMark .rightBracket "array declarator"; pure size) known
        (optionalContent Expr.content) :=
    fun known size same => .skip (.expectMark _ _) fun _ => .pure same
  split
  · exact closes 0 none rfl state
  · split
    · next star =>
      have ahead := beq_iff_eq.mp (Bool.and_eq_true _ _ ▸ star).1
      exact .advance ahead trivial (closes 0 none rfl)
    · have sized : Reads word (some <$> assignment) 0 (optionalContent Expr.content) :=
        assigns.map fun _ => rfl
      exact sized.bind (fun size => closes _ size rfl) state

include reads declares in
theorem parameterStep_reads : Reads word (parameterStep specifiers declarator) 0
    (optionalContent fun entry => optionalContent Parameter.content entry.1) := by
  refine .skip (.acceptMark _) fun _ => .ite (.pure rfl) ?_
  refine .skip .location fun start => reads.step fun given => declares.step fun declared =>
    .skip (.spanFrom start) fun span => .skip (.acceptMark _) fun _ => .pure ?_
  change Content.ofOption declared.name + (declared.typeFrom given.base).content = _
  rw [Declarator.content_typeFrom, Declarator.content, Specifiers.content]
  abel

include reads declares in
theorem parameterList_reads (budget : Nat) :
    Reads word (parameterList specifiers declarator budget) 0 Derivation.content := by
  refine .skip (.acceptMark _) fun _ => .ite (.pure rfl) (.get fun state => ?_)
  have listed : Reads word (do
      let entries ← collectWithin (parameterStep specifiers declarator) budget
      expectMark .rightParen "parameter list"
      pure (Derivation.function (entries.filterMap id) (entries.any Option.isNone))) 0
      Derivation.content := by
    refine (Reads.collect (parameterStep_reads reads declares) budget).bind fun entries =>
      .skip (.expectMark _ _) fun _ => .pure ?_
    exact listContent_filterMap_id _ _
  split
  · split
    · exact Reads.faulty state
    · exact listed state
  · exact listed state

include assigns in
theorem derivationStep_reads (lists : Reads word parameters 0 Derivation.content) :
    Reads word (derivationStep assignment parameters) 0 (optionalContent fun entry => entry.1.content) := by
  refine .skip (.acceptMark _) fun _ => .ite ?_ (.skip (.acceptMark _) fun _ => .ite ?_ (.pure rfl))
  · exact (arraySize_reads assigns).bind fun size => .pure rfl
  · exact lists.bind fun derivation => .pure rfl

theorem pointerStep_reads : Reads word pointerStep 0 (optionalContent fun entry => entry.1.content) :=
  .skip (.acceptMark _) fun _ => .ite (.skip .qualifiers fun _ => .pure rfl) (.pure rfl)

theorem declaratorCore_reads (nests : Reads word nested 0 Declarator.content) :
    Reads word (declaratorCore nested) 0 Declarator.content := by
  refine .get fun state => ?_
  split
  · next nestedAhead =>
    have ahead := beq_iff_eq.mp (Bool.and_eq_true _ _ ▸ nestedAhead).1
    exact .advance ahead trivial (nests.bind fun inner => .skip (.expectMark _ _) fun _ => .pure rfl)
  · exact (acceptIdentifier_reads.bind fun name => .pure (add_zero _)) state

include assigns in
theorem declaratorForm_reads (nests : Reads word nested 0 Declarator.content)
    (lists : Reads word parameters 0 Derivation.content) (budget : Nat) :
    Reads word (declaratorForm nested assignment parameters budget) 0 Declarator.content := by
  refine (Reads.collect pointerStep_reads budget).bind fun pointers =>
    (declaratorCore_reads nests).step fun core =>
      (Reads.collect (derivationStep_reads assigns lists) budget).step fun suffixes => .pure ?_
  rw [Declarator.content, listContent_append, listContent_append, listContent_reverse, Declarator.content]
  abel

include reads declares in
theorem typeNameForm_reads : Reads word (typeNameForm specifiers declarator) 0 CType.content := by
  refine .skip .location fun start => reads.bind fun given => ?_
  refine .ite .faulty (declares.step fun declared => ?_)
  split
  · exact .fault _ _
  · next none =>
    refine .pure ?_
    rw [Declarator.content_typeFrom, Declarator.content, none, Content.ofOption_none, zero_add]
    rfl

include declares chooses in
theorem fieldForm_reads (base : CType) :
    Reads word (fieldForm base declarator conditional) base.content Field.content := by
  have built : ∀ declared : Declarator, Reads word (do
      let width ← if ← acceptMark .colon then some <$> conditional else pure none
      pure (⟨declared.name, declared.typeFrom base, width⟩ : Field))
      (base.content + declared.content) Field.content := by
    intro declared
    have closes : ∀ width : Option Expr, Reads word
        (pure (⟨declared.name, declared.typeFrom base, width⟩ : Field))
        (base.content + declared.content + optionalContent Expr.content width) Field.content := by
      refine fun width => .pure ?_
      rw [Field.content, Declarator.content_typeFrom, Declarator.content]
      abel
    have sized : Reads word (some <$> conditional) 0 (optionalContent Expr.content) :=
      chooses.map fun _ => rfl
    refine .skip (.acceptMark _) fun _ => .ite (sized.step closes) ?_
    have none := closes none
    rwa [optionalContent_none, add_zero] at none
  refine .get fun state => ?_
  split
  · have unnamed := built {}
    rw [Declarator.content, Content.ofOption_none, listContent_nil, add_zero, add_zero] at unnamed
    exact unnamed state
  · exact (declares.step built) state

include declares chooses in
theorem furtherField_reads {base : CType} (specified : IsSpecified base) (known : Content) :
    Reads word (furtherField base declarator conditional) (base.content + known) fun taken =>
      base.content + known + optionalContent (fun entry => Field.content entry.1) taken := by
  refine .skip (.acceptMark _) fun _ => .ite (.again specified ?_) (.pure (add_zero _))
  exact ((fieldForm_reads declares chooses base.withoutBodies).widen _).bind fun field => .pure rfl

include reads specified declares chooses in
theorem fieldStep_reads (budget : Nat) :
    Reads word (fieldStep specifiers declarator conditional budget) 0
      (optionalContent fun entry => listContent Field.content entry.1) := by
  refine .get fun state => Reads.ite (.pure rfl) ?_ state
  refine .skip (.acceptMark _) fun _ => .ite (.pure rfl) ?_
  refine reads.stepWith specified fun given isSpecified => ?_
  rw [optionalContent_none, zero_add]
  have fields : ∀ first : Field, ∀ more, first.content = given.base.content + more →
      Reads word (do
        let others ← collectWithin (furtherField given.base declarator conditional) budget
        expectMark .semicolon "struct field"
        pure (some (first :: others, true))) (given.base.content + more)
        (optionalContent fun entry => listContent Field.content entry.1) := by
    intro first more same
    have further (others : Content) :=
      furtherField_reads declares chooses isSpecified (more + others)
    simp only [← add_assoc] at further
    refine (Reads.collectWithin further budget).bind fun others =>
      .skip (.expectMark _ _) fun _ => .pure ?_
    rw [optionalContent_some, listContent_cons, same]
  refine .skip (.acceptMark _) fun _ => .ite (.pure ?_)
    ((fieldForm_reads declares chooses given.base).bindKnown fields)
  rw [optionalContent_some, listContent_cons, listContent_nil, Field.content,
    Content.ofOption_none, optionalContent_none, zero_add, add_zero, add_zero]
  rfl

include chooses in
theorem enumeratorStep_reads : Reads word (enumeratorStep conditional) 0
    (optionalContent fun entry => Enumerator.content entry.1) := by
  refine .get fun state => Reads.ite (.pure rfl) ?_ state
  refine (expectIdentifier_reads _).bind fun name => .skip (.acceptMark _) fun _ => ?_
  have closes : ∀ value : Option Expr, Reads word
      (do return some ((⟨name, value⟩ : Enumerator), ← acceptMark .comma))
      (.ofName name + optionalContent Expr.content value)
      (optionalContent fun entry => Enumerator.content entry.1) :=
    fun value => .skip (.acceptMark _) fun _ => .pure rfl
  have valued : Reads word (some <$> conditional) 0 (optionalContent Expr.content) :=
    chooses.map fun _ => rfl
  refine .ite (valued.step closes) ?_
  have none := closes none
  rwa [optionalContent_none, add_zero] at none

end Declarators

/-! ## Types with bodies -/

def ReadsBehind (word : String → Prop) (parser : Parse CType) : Prop :=
  ∀ (token : Token) (keyword : Keyword) (state : State) (value : CType) (after : State),
    token.lexeme = .keyword keyword → (bodiedTypeOfKeyword? keyword).isSome →
      parser.run state = .ok value after →
        Covers word (token :: state.tokens) after.tokens 0 value.content

theorem Covers.keyword {token : Token} {keyword : Keyword} {tokens after : List Token}
    {content whole : Content} (isKeyword : token.lexeme = .keyword keyword)
    (bodied : (bodiedTypeOfKeyword? keyword).isSome)
    (covers : Covers word tokens after 0 content) (names : whole.1 = content.1)
    (bodies : whole.2.card = content.2.card + if bodyFollows tokens then 1 else 0)
    (fewer : content.2 ≤ whole.2) : Covers word (token :: tokens) after 0 whole where
  words spelled knownWords := by
    rw [names]
    exact covers.words (fun other member => spelled other (List.mem_cons_of_mem _ member))
      knownWords
  atLeast := by
    have := covers.atLeast
    rw [bodiesWritten_keyword isKeyword bodied, bodies]
    omega
  exact single := by
    rw [zero_add] at single
    have part : (0 + content).tagless.Nodup := by
      rw [zero_add]
      exact Multiset.nodup_of_le (Multiset.filter_le_filter _ fewer) single
    have := covers.exact part
    rw [bodiesWritten_keyword isKeyword bodied, bodies]
    omega

variable {after state : State}

theorem isAtMark_of_acceptMark {mark : Mark} {accepted : Bool}
    (accepts : (acceptMark mark).run state = .ok accepted after) : accepted = state.isAtMark mark := by
  obtain ⟨here, between, gets, accepts⟩ := bind_ok accepts
  cases gets
  cases ahead : state.isAtMark mark with
  | true =>
    rw [if_pos ahead] at accepts
    obtain ⟨_, taken, _, accepts⟩ := bind_ok accepts
    cases accepts
    rfl
  | false =>
    rw [if_neg (Bool.eq_false_iff.mp ahead)] at accepts
    cases accepts
    rfl

theorem bodyFollows_of_acceptIdentifier {tag : Option String}
    (accepts : acceptIdentifier.run state = .ok tag after) :
    bodyFollows state.tokens = after.isAtMark .leftBrace := by
  obtain ⟨here, between, gets, accepts⟩ := bind_ok accepts
  cases gets
  unfold bodyFollows
  split
  · next name ahead =>
    have isName : state.lexeme? = some (.identifier name) := ahead
    rw [isName] at accepts
    obtain ⟨_, taken, takes, accepts⟩ := bind_ok accepts
    cases accepts
    obtain ⟨tokens, typedefs, fileEnd⟩ := state
    cases tokens with
    | nil => cases ahead
    | cons token rest =>
      cases takes
      rfl
  · next notName =>
    split at accepts
    · next name ahead => exact absurd ahead (notName name)
    · cases accepts
      rfl

theorem opening_covers (word : String → Prop) {between : State} {tag : Option String} {opened : Bool}
    (accepts : acceptIdentifier.run state = .ok tag between)
    (opens : (acceptMark .leftBrace).run between = .ok opened after) :
    Covers word state.tokens after.tokens 0 (.ofOption tag) ∧ opened = bodyFollows state.tokens := by
  have reads : Reads word acceptIdentifier 0 Content.ofOption := acceptIdentifier_reads
  obtain ⟨more, same, covers⟩ := reads state tag between accepts
  rw [zero_add] at same
  rw [← same] at covers
  refine ⟨?_, ?_⟩
  · have both := covers.trans ((Silent.acceptMark .leftBrace between opened after opens).frame _)
    rwa [add_zero] at both
  · rw [bodyFollows_of_acceptIdentifier accepts]
    exact isAtMark_of_acceptMark opens

theorem readsBehind_of_opened {whole : Option String → Parse CType}
    {reference : Option String → CType}
    (inside : ∀ tag state value after, (whole tag).run state = .ok value after →
      ∃ content, value.content = .ofOption tag + content + .ofBody value ∧
        Covers word state.tokens after.tokens 0 content)
    (closed : ∀ tag, (reference tag).content = .ofOption tag) :
    ReadsBehind word (do
      let tag ← acceptIdentifier
      if ← acceptMark .leftBrace then whole tag else pure (reference tag)) := by
  intro token keyword state value after isKeyword bodied runs
  obtain ⟨tag, named, accepts, runs⟩ := bind_ok runs
  obtain ⟨opened, behind, opens, runs⟩ := bind_ok runs
  obtain ⟨covers, isOpened⟩ := opening_covers word accepts opens
  cases opened with
  | true =>
    obtain ⟨content, same, insideCovers⟩ := inside tag behind value after runs
    have all := covers.trans (insideCovers.frame _)
    refine all.keyword isKeyword bodied ?_ ?_ ?_
    · rw [same]
      exact add_zero _
    · rw [same, ← isOpened]
      exact Multiset.card_add _ _
    · rw [same]
      exact Multiset.le_add_right _ _
  | false =>
    cases runs
    refine covers.keyword isKeyword bodied ?_ ?_ ?_
    · rw [closed]
    · rw [closed, ← isOpened]
      rfl
    · rw [closed]

section Bodies

variable {specifiers : Parse Specifiers} {declarator : Parse Declarator} {conditional : Parse Expr}
  (reads : Reads word specifiers 0 Specifiers.content)
  (specified : Delivers specifiers fun given => IsSpecified given.base)
  (declares : Reads word declarator 0 Declarator.content)
  (chooses : Reads word conditional 0 Expr.content)

include reads specified declares chooses in
theorem recordForm_reads (kind : RecordKind) (budget : Nat) :
    ReadsBehind word (recordForm kind specifiers declarator conditional budget) := by
  refine readsBehind_of_opened (fun tag state value after runs => ?_) fun tag =>
    CType.content_reference kind tag
  obtain ⟨fields, between, collects, runs⟩ := bind_ok runs
  obtain ⟨_, closed, closes, runs⟩ := bind_ok runs
  cases runs
  obtain ⟨more, same, covers⟩ := Reads.collect
    (fieldStep_reads reads specified declares chooses budget) budget state fields between collects
  rw [zero_add] at same
  refine ⟨more, ?_, ?_⟩
  · rw [CType.content_record, listContent_flatten, same]
  · have both := covers.trans (Silent.expectMark .rightBrace _ between _ _ closes |>.frame _)
    rwa [add_zero] at both

include chooses in
theorem enumerationForm_reads (budget : Nat) : ReadsBehind word (enumerationForm conditional budget) := by
  refine readsBehind_of_opened (fun tag state value after runs => ?_) CType.content_enumerationReference
  obtain ⟨enumerators, between, collects, runs⟩ := bind_ok runs
  obtain ⟨_, closed, closes, runs⟩ := bind_ok runs
  cases runs
  obtain ⟨more, same, covers⟩ := Reads.collect (enumeratorStep_reads chooses) budget state
    enumerators between collects
  rw [zero_add] at same
  refine ⟨more, ?_, ?_⟩
  · rw [CType.content_enumeration, same]
  · have both := covers.trans (Silent.expectMark .rightBrace _ between _ _ closes |>.frame _)
    rwa [add_zero] at both

end Bodies

/-! ## Specifiers -/

section Words

variable {bodied : BodiedType → Parse CType} {read : SpecifierWords}

theorem SpecifierWords.addKeyword?_named {next : SpecifierWords} {keyword : Keyword}
    (adds : read.addKeyword? keyword = some next) : next.named = read.named := by
  unfold addKeyword? at adds
  split at adds
  · cases adds
    rfl
  · split at adds
    · cases adds
      rfl
    · split at adds
      · cases adds
        rfl
      · split at adds
        · cases adds
          rfl
        · cases adds

theorem SpecifierWords.content_of_not_hasType (untyped : read.hasType = false) : read.content = 0 := by
  unfold content
  have none : read.named = none :=
    Option.isNone_iff_eq_none.mp (Option.isSome_eq_false_iff.mp (Bool.or_eq_false_iff.mp untyped).1)
  rw [none, optionalContent_none]

theorem SpecifierWords.content_base (read : SpecifierWords) : read.base.content = read.content := by
  have type : (read.named.getD (.basic read.words.resolve)).content = read.content := by
    unfold SpecifierWords.content
    cases read.named with
    | none => rfl
    | some type => rfl
  unfold base
  rw [← type]
  split
  · rfl
  · exact CType.content_qualified _ _

theorem specifierStep_reads (behind : ∀ kind, ReadsBehind word (bodied kind))
    (read : SpecifierWords) : Reads word (specifierStep bodied read) read.content fun taken =>
      taken.elim read.content SpecifierWords.content := by
  refine .get fun state => ?_
  split
  · next keyword ahead =>
    split
    · next kind isBodied =>
      cases typed : read.hasType with
      | true => exact Reads.pure rfl state
      | false =>
        rw [SpecifierWords.content_of_not_hasType typed]
        obtain ⟨tokens, typedefs, fileEnd⟩ := state
        cases tokens with
        | nil => cases ahead
        | cons token rest =>
          intro value after runs
          obtain ⟨_, taken, takes, runs⟩ := bind_ok runs
          cases takes
          obtain ⟨type, between, reads, runs⟩ := bind_ok runs
          cases runs
          exact ⟨type.content, (zero_add _).symm, behind kind token keyword _ type after
            (Option.some.inj ahead) (by rw [isBodied]; rfl) reads⟩
    · next notBodied =>
      split
      · next next adds =>
        split
        · refine .advance ahead notBodied (.pure ?_)
          exact congrArg (optionalContent CType.content) (SpecifierWords.addKeyword?_named adds)
        · exact Reads.failure _ state
      · exact Reads.pure rfl state
  · next name ahead =>
    split
    · next isName =>
      have untyped : read.hasType = false :=
        Bool.not_eq_true' _ ▸ (Bool.and_eq_true _ _ ▸ isName).1
      rw [SpecifierWords.content_of_not_hasType untyped]
      exact .name ahead (.pure (zero_add _).symm)
    · exact Reads.pure rfl state
  · exact Reads.pure rfl state

theorem specifiers_reads (behind : ∀ kind, ReadsBehind word (bodied kind)) (budget : Nat) :
    Reads word (specifiers bodied budget) 0 Specifiers.content := by
  refine .skip .location fun start =>
    (Reads.iterateWithin (specifierStep_reads behind) budget {}).bind fun read => .ite ?_ ?_
  · refine .get fun state => ?_
    split
    · exact Reads.unexpected _ _ state
    · exact Reads.fault _ _ state
  · exact .pure read.content_base

def SpecifierWords.IsRegular (read : SpecifierWords) : Prop :=
  ∀ type ∈ read.named, IsSpecified type

theorem SpecifierWords.IsRegular.base (regular : read.IsRegular) : IsSpecified read.base := by
  have type : IsSpecified (read.named.getD (.basic read.words.resolve)) := by
    cases given : read.named with
    | none => exact .basic _
    | some type => exact regular type given
  unfold SpecifierWords.base
  split
  · exact type
  · exact .qualified _ type

theorem specifierStep_regular (specified : ∀ kind, Delivers (bodied kind) IsSpecified)
    (regular : read.IsRegular) :
    Delivers (specifierStep bodied read) fun taken => ∀ next ∈ taken, next.IsRegular := by
  have nothing : Delivers (pure none : Parse (Option SpecifierWords)) fun taken =>
      ∀ next ∈ taken, next.IsRegular := .pure fun next member => nomatch member
  refine .after fun state => ?_
  split
  · split
    · refine .ite nothing (.after fun _ => (specified _).bind fun type isSpecified => .pure ?_)
      intro next member
      cases member
      exact fun other same => Option.some.inj same ▸ isSpecified
    · split
      · next next adds =>
        refine .ite (.after fun _ => .pure fun other member => ?_) (.failure _)
        cases member
        intro type given
        rw [SpecifierWords.addKeyword?_named adds] at given
        exact regular type given
      · exact nothing
  · refine .ite (.after fun _ => .pure ?_) nothing
    intro next member
    cases member
    exact fun other same => Option.some.inj same ▸ .named _
  · exact nothing

theorem specifiers_specified (specified : ∀ kind, Delivers (bodied kind) IsSpecified)
    (budget : Nat) : Delivers (specifiers bodied budget) fun given => IsSpecified given.base := by
  have regular : SpecifierWords.IsRegular {} := fun type member => nomatch member
  refine .after fun start => (Delivers.iterateWithin
    (fun read isRegular => specifierStep_regular specified isRegular) budget regular).bind
    fun read isRegular => .ite ?_ (.pure isRegular.base)
  refine .after fun state => ?_
  split
  · exact .fault _ _
  · exact .fault _ _

theorem recordForm_specified (kind : RecordKind) (specifiers : Parse Specifiers)
    (declarator : Parse Declarator) (conditional : Parse Expr) (budget : Nat) :
    Delivers (recordForm kind specifiers declarator conditional budget) IsSpecified :=
  .after fun tag => .after fun _ => .ite
    (.after fun _ => .after fun _ => .pure (.record kind tag _)) (.pure (.record kind tag none))

theorem enumerationForm_specified (conditional : Parse Expr) (budget : Nat) :
    Delivers (enumerationForm conditional budget) IsSpecified :=
  .after fun tag => .after fun _ => .ite (.after fun _ => .after fun _ => .pure (.enumeration tag _))
    (.pure (.enumeration tag none))

end Words

end Parser

end InlineMacro
