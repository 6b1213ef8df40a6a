import InlineMacro.Proofs.Parser.WrittenDeclarator

/-!
# Legible trees are written so that they read the same

The text of every legible expression is read as the expression, and the text of every legible type,
around a name or without one, as the type. The induction is over the trees: over an expression at
every precedence, over a type around everything that can have been written before.
-/

set_option autoImplicit false

namespace InlineMacro

open InlineMacro.Parser (Derives Derivation Declarator)
open Printer

def CType.core : CType → CType
  | .pointer _ target => target.core
  | .array element _ => element.core
  | .function result _ _ => result.core
  | type => type

def CType.PartsWritten (typedefs : List String) (type : CType) (name : Option String)
    (parts : String × String) : Prop :=
  ∃ spec declared lexemes, CType.SpecifiersWritten typedefs type.core parts.1 spec ∧
    Declarator.WrittenAs typedefs false declared parts.2 lexemes ∧ declared.name = name ∧
    declared.typeFrom type.core = type

def Parameter.ListIsWritten (typedefs : List String) (parameters : List Parameter) (isVariadic : Bool)
    (texts : List String) : Prop :=
  texts ≠ [] ∧ ∃ lexemes, Written (Text.join ", " texts) lexemes ∧
    Derives typedefs (.parameters parameters isVariadic) lexemes

variable {typedefs : List String}

/-! ## Specifiers and declarators together -/

theorem Parser.Declarator.core_typeFrom (declared : Declarator) (base : CType) :
    (declared.typeFrom base).core = base.core := by
  unfold Declarator.typeFrom
  induction declared.derivations generalizing base with
  | nil => rfl
  | cons layer layers ih =>
    rw [List.foldl_cons, ih]
    cases layer <;> rfl

variable {type : CType} {name : Option String} {parts : String × String}

theorem CType.PartsWritten.written (parted : type.PartsWritten typedefs name parts) :
    ∃ base spec declared lexemes, Written (specifiersAnd parts) (spec ++ lexemes) ∧
      CType.SpecifiersWritten typedefs base parts.1 spec ∧
      Derives typedefs (.declarator declared) lexemes ∧ declared.name = name ∧
      declared.typeFrom base = type := by
  obtain ⟨spec, declared, lexemes, given, inner, named, same⟩ := parted
  refine ⟨type.core, spec, declared, lexemes, ?_, given, inner.derives, named, same⟩
  unfold specifiersAnd
  split
  · next none =>
    rw [inner.written.scans.eq_nil (by rw [String.isEmpty_iff.mp none]; rfl), List.append_nil]
    exact given.written
  · exact given.written.spaced inner.written

theorem CType.PartsWritten.intro {declared : Declarator} {base : CType} {text inner : String}
    {spec lexemes : List Lexeme} (isCore : base.core = base)
    (specifiers : base.SpecifiersWritten typedefs text spec)
    (written : declared.WrittenAs typedefs false inner lexemes) :
    (declared.typeFrom base).PartsWritten typedefs declared.name (text, inner) := by
  have same := (declared.core_typeFrom base).trans isCore
  refine ⟨spec, declared, lexemes, ?_, written, rfl, ?_⟩
  · rwa [same]
  · rw [same]

theorem CType.PartsWritten.typeName
    (parted : type.PartsWritten typedefs none parts) : type.IsWritten typedefs (specifiersAnd parts) := by
  obtain ⟨base, spec, ⟨_, layers⟩, lexemes, written, given, derives, rfl, rfl⟩ := parted.written
  exact ⟨_, written, .typeName given.derives rfl given.opens derives⟩

theorem CType.PartsWritten.parameter (parted : type.PartsWritten typedefs name parts) (span : Span) :
    ∃ lexemes, Written (specifiersAnd parts) lexemes ∧
      Derives typedefs (.parameter ⟨name, type, span⟩) lexemes := by
  obtain ⟨base, spec, declared, lexemes, written, given, derives, rfl, rfl⟩ := parted.written
  exact ⟨_, written, .parameter span given.derives derives⟩

theorem Parameter.ListIsWritten.cons
    {parameters : List Parameter} {isVariadic : Bool} {texts : List String} (span : Span)
    (parted : type.PartsWritten typedefs name parts)
    (others : parameters = [] ∧ isVariadic = false ∧ texts = [] ∨
      Parameter.ListIsWritten typedefs parameters isVariadic texts) :
    Parameter.ListIsWritten typedefs (⟨name, type, span⟩ :: parameters) isVariadic
      (specifiersAnd parts :: texts) := by
  obtain ⟨lexemes, written, derives⟩ := parted.parameter span
  rcases others with ⟨rfl, rfl, rfl⟩ | ⟨some, more, writtenMore, derivesMore⟩
  · exact ⟨nofun, lexemes, written, .lastParameter derives⟩
  · exact ⟨nofun, _, written.join_cons writtenMore some, .moreParameters derives derivesMore⟩

theorem Parameter.ListIsWritten.nil (isVariadic : Bool) :
    ([] : List Parameter) = [] ∧ isVariadic = false ∧ (if isVariadic then ["..."] else []) = [] ∨
      Parameter.ListIsWritten typedefs [] isVariadic (if isVariadic then ["..."] else []) := by
  cases isVariadic with
  | true => exact .inr ⟨nofun, _, .mark .ellipsis, .ellipsis⟩
  | false => exact .inl ⟨rfl, rfl, rfl⟩

theorem exists_writtenName (ordinary : name.all isOrdinary) :
    ∃ lexemes, Declarator.WrittenAs typedefs true { name := name } (name.getD "") lexemes := by
  cases name with
  | none => exact ⟨_, .noName⟩
  | some name => exact ⟨_, .name ordinary⟩

/-! ## The layers of a type -/

namespace Parser.Declarator.WrittenAs

variable {declared : Declarator} {text : String} {lexemes : List Lexeme}

theorem pointerTo (qualifiers : Qualifiers) (target : CType)
    (inner : declared.WrittenAs typedefs false text lexemes) :
    ∃ more, WrittenAs typedefs (isSuffixType target)
      ⟨declared.name, .pointer qualifiers :: declared.derivations⟩
      (parenthesized (isSuffixType target) (pointerText (qualifiers.merge {}) text)) more := by
  have same : qualifiers.merge {} = qualifiers := by simp [Qualifiers.merge]
  rw [same]
  have pointed := inner.pointer qualifiers
  cases isSuffixType target with
  | true => exact ⟨_, pointed.enclosed⟩
  | false => exact ⟨_, pointed⟩

theorem arrayOf (inner : declared.WrittenAs typedefs true text lexemes) :
    ∃ more, WrittenAs typedefs true ⟨declared.name, .array none :: declared.derivations⟩
      (text ++ "[]") more :=
  have brackets : Written "[]" [.mark .leftBracket, .mark .rightBracket] :=
    (Written.mark .leftBracket).close (.mark .rightBracket) (by decide)
  ⟨_, inner.layer brackets (.array .noSize .noLayers) (by decide) ⟨by decide, by decide⟩⟩

theorem arrayOfSize {size : Expr} {sizeText : String} (inner : declared.WrittenAs typedefs true text lexemes)
    (sized : size.IsWritten typedefs Precedence.assignment sizeText) :
    ∃ more, WrittenAs typedefs true ⟨declared.name, .array (some size) :: declared.derivations⟩
      (text ++ "[" ++ sizeText ++ "]") more := by
  obtain ⟨between, written, derives, -⟩ := sized
  have opening : Written ("[" ++ sizeText) (.mark .leftBracket :: between) :=
    (Written.mark .leftBracket).append written (Written.endsBefore_opening (.inr rfl) [])
  have starts : ("[" ++ sizeText ++ "]").toList = '[' :: (sizeText ++ "]").toList := by
    rw [String.append_assoc, String.toList_append]
    rfl
  have same : text ++ "[" ++ sizeText ++ "]" = text ++ ("[" ++ sizeText ++ "]") := by
    simp only [String.append_assoc]
  rw [same]
  refine ⟨_, inner.layer (opening.close (.mark .rightBracket) (by decide))
    (.array (.someSize derives) .noLayers) ?_ ?_⟩
  · rw [startsAmong, starts]
    rfl
  · rw [starts]
    exact ⟨by decide, by decide⟩

theorem functionOf {parameters : List Parameter} {isVariadic : Bool} {texts : List String}
    (inner : declared.WrittenAs typedefs true text lexemes)
    (listed : parameters = [] ∧ isVariadic = false ∧ texts = [] ∨
      Parameter.ListIsWritten typedefs parameters isVariadic texts) : ∃ more, WrittenAs typedefs true
      ⟨declared.name, .function parameters isVariadic :: declared.derivations⟩
      (text ++ "(" ++ Text.join ", " texts ++ ")") more := by
  have starts (between : String) : ("(" ++ between ++ ")").toList = '(' :: (between ++ ")").toList := by
    rw [String.append_assoc, String.toList_append]
    rfl
  have put {more : List Lexeme} (written : Written ("(" ++ Text.join ", " texts) more)
      (derives : Derives typedefs (.layers [.function parameters isVariadic]) (more ++ [.mark .rightParen])) :
      WrittenAs typedefs true ⟨declared.name, .function parameters isVariadic :: declared.derivations⟩
        (text ++ "(" ++ Text.join ", " texts ++ ")") (lexemes ++ (more ++ [.mark .rightParen])) := by
    have same : text ++ "(" ++ Text.join ", " texts ++ ")" =
        text ++ ("(" ++ Text.join ", " texts ++ ")") := by
      simp only [String.append_assoc]
    rw [same]
    refine inner.layer (written.close (.mark .rightParen) (by decide)) derives ?_ ?_
    · rw [startsAmong, starts]
      rfl
    · rw [starts]
      exact ⟨by decide, by decide⟩
  rcases listed with ⟨rfl, rfl, rfl⟩ | ⟨-, between, written, derives⟩
  · exact ⟨_, put (.mark .leftParen) (.functionNone .noLayers)⟩
  · exact ⟨_, put ((Written.mark .leftParen).append written (Written.endsBefore_opening (.inl rfl) []))
      (.function derives .noLayers)⟩

end Parser.Declarator.WrittenAs

theorem Parser.Declarator.WrittenAs.partsOfPlain {declared : Declarator} {inner : String}
    {lexemes : List Lexeme} {direct : Bool} (written : declared.WrittenAs typedefs direct inner lexemes)
    (plain : type.isPlain) (legible : type.isLegible typedefs) (depth : Nat) :
    (declared.typeFrom type).PartsWritten typedefs declared.name (declaratorParts depth none inner type) := by
  obtain ⟨spec, words⟩ := CType.exists_wordsWritten plain legible
  rw [declaratorParts_of_isPlain plain]
  exact .intro (by cases type <;> first | rfl | cases plain) words.specifiers written.any

/-! ## Whole trees -/

def Expr.level : Expr → Nat
  | .comma .. => Precedence.comma
  | .binary _ operator _ _ => operator.precedence
  | .unary _ operator _ => if operator.followsOperand then Precedence.suffixed else Precedence.unary
  | .conditional .. => Precedence.conditional
  | .cast .. | .sizeofExpr .. | .sizeofType .. => Precedence.unary
  | .call .. | .member .. | .compoundLiteral .. => Precedence.suffixed
  | _ => Precedence.primary

theorem exprText_zero {tree : Expr} {least : Nat} (fits : least ≤ tree.level) (depth : Nat) :
    exprText depth 0 tree = exprText depth least tree := by
  have loose {own : Nat} (enough : least ≤ own) (text : String) :
      parenthesized (own < 0) text = parenthesized (own < least) text := by
    simp [parenthesized, Nat.not_lt.mpr enough]
  cases tree with
  | binary span operator left right =>
    simp only [exprText]
    split
    · next isIndex => exact loose (by rwa [isIndex] at fits) _
    · split
      · next assigns => exact loose (fits.trans (Nat.le_of_eq (beq_iff_eq.mp assigns))) _
      · exact loose fits _
  | unary span operator operand =>
    simp only [Expr.level] at fits
    simp only [exprText]
    split
    · next follows => exact loose (by rwa [if_pos follows] at fits) _
    · next inFront => exact loose (by rwa [if_neg inFront] at fits) _
  | comma | call | member | conditional | cast | sizeofExpr | sizeofType | compoundLiteral =>
    simp only [exprText]
    exact loose fits _
  | _ => rfl

theorem Expr.assignment_le_level {tree : Expr} (noComma : tree.isComma = false) :
    Precedence.assignment ≤ tree.level := by
  cases tree with
  | comma => cases noComma
  | binary _ operator => cases operator <;> exact Nat.le_of_ble_eq_true rfl
  | unary _ operator => cases operator <;> exact Nat.le_of_ble_eq_true rfl
  | _ => exact Nat.le_of_ble_eq_true rfl

theorem Expr.startsLiteral_of_isLegible : ∀ tree : Expr, tree.isLegible typedefs → tree.startsLiteral = false
  | .binary _ operator left right, legible => by
    simp only [isLegible, Bool.and_eq_true] at legible
    simp [startsLiteral, startsLiteral_of_isLegible left legible.1]
  | .unary _ operator operand, legible => by
    simp only [isLegible, Bool.and_eq_true] at legible
    simp [startsLiteral, startsLiteral_of_isLegible operand legible.1.1]
  | .call _ function _, legible => by
    simp only [isLegible, Bool.and_eq_true] at legible
    rw [startsLiteral, startsLiteral_of_isLegible function legible.1]
  | .member _ object _ _, legible => by
    simp only [isLegible, Bool.and_eq_true] at legible
    rw [startsLiteral, startsLiteral_of_isLegible object legible.1.1]
  | .intLiteral .., _ | .floatLiteral .., _ | .charLiteral .., _ | .stringLiteral .., _ => rfl
  | .identifier .., _ | .conditional .., _ | .cast .., _ | .sizeofExpr .., _ => rfl
  | .sizeofType .., _ | .comma .., _ | .typeArgument .., _ => rfl

mutual

theorem Expr.isWritten (depth minimum : Nat) : ∀ tree : Expr, tree.isLegible typedefs →
    tree.IsWritten typedefs minimum (exprText depth minimum tree)
  | .intLiteral span spelling, legible => by
    rw [Expr.isLegible] at legible
    exact .ofLexeme legible rfl (.intLiteral span spelling) nofun nofun minimum
  | .floatLiteral span spelling, legible => by
    rw [Expr.isLegible] at legible
    exact .ofLexeme legible rfl (.floatLiteral span spelling) nofun nofun minimum
  | .charLiteral span spelling, legible => by
    rw [Expr.isLegible] at legible
    exact .ofLexeme legible rfl (.charLiteral span spelling) nofun (fun _ => rfl) minimum
  | .stringLiteral span pieces, legible => by
    simp only [Expr.isLegible, Bool.and_eq_true, Bool.not_eq_true', List.all_eq_true] at legible
    exact .stringLiteral span (by simpa using legible.1) legible.2 minimum
  | .identifier span name, legible => by
    simp only [Expr.isLegible, Bool.and_eq_true, Bool.not_eq_true'] at legible
    exact .identifier span legible.1 (by simpa using legible.2) minimum
  | .binary span operator left right, legible => by
    simp only [Expr.isLegible, Bool.and_eq_true] at legible
    have first (minimum : Nat) := Expr.isWritten depth minimum left legible.1
    have second (minimum : Nat) := Expr.isWritten depth minimum right legible.2
    rw [exprText]
    split
    · next isIndex =>
      rw [isIndex]
      exact (Expr.IsWritten.index span (first _) (second _)).parenthesized minimum
    · next notIndex =>
      split
      · next assigns => exact (Expr.IsWritten.assign span assigns (first _) (second _)).parenthesized minimum
      · next computes =>
        exact (Expr.IsWritten.operate span notIndex (by simpa using computes) (first _)
          (second _)).parenthesized minimum
  | .unary span operator operand, legible => by
    simp only [Expr.isLegible, Bool.and_eq_true, Bool.not_eq_true'] at legible
    obtain ⟨⟨legible, notNumber⟩, notCast⟩ := legible
    have inner (minimum : Nat) := Expr.isWritten depth minimum operand legible
    rw [exprText]
    split
    · next follows =>
      rw [follows, Bool.true_and] at notNumber
      exact (Expr.IsWritten.behind span follows (inner _) notNumber).parenthesized minimum
    · next inFront =>
      have unhindered : (Parser.takesUnaryOperand operator && (operand.isCast || operand.startsLiteral)) = false := by
        rw [Expr.startsLiteral_of_isLegible operand legible, Bool.or_false]
        exact notCast
      exact (Expr.IsWritten.before span (by simpa using inFront) (inner _) unhindered).parenthesized minimum
  | .call span function arguments, legible => by
    simp only [Expr.isLegible, Bool.and_eq_true] at legible
    have callee := Expr.isWritten depth Precedence.suffixed function legible.1
    rw [exprText]
    refine (Expr.IsWritten.call span callee ?_).parenthesized minimum
    exact (Expr.listIsWritten depth _ arguments legible.2).imp_left fun none => by
      subst none
      exact ⟨rfl, rfl⟩
  | .member span object name throughPointer, legible => by
    simp only [Expr.isLegible, Bool.and_eq_true, Bool.not_eq_true'] at legible
    obtain ⟨⟨legible, notNumber⟩, ordinary⟩ := legible
    have inner := Expr.isWritten depth Precedence.suffixed object legible
    rw [exprText]
    exact (Expr.IsWritten.member span throughPointer inner notNumber ordinary).parenthesized minimum
  | .conditional span condition thenValue elseValue, legible => by
    simp only [Expr.isLegible, Bool.and_eq_true] at legible
    obtain ⟨⟨legible, legibleThen⟩, legibleElse⟩ := legible
    rw [exprText]
    exact (Expr.IsWritten.conditional span (Expr.isWritten depth _ condition legible)
      (Expr.isWritten depth _ thenValue legibleThen)
      (Expr.isWritten depth _ elseValue legibleElse)).parenthesized minimum
  | .cast span target operand, legible => by
    simp only [Expr.isLegible, Bool.and_eq_true] at legible
    have named : target.PartsWritten typedefs none (declaratorParts depth none "" target) :=
      CType.partsWritten depth target legible.1 (Declarator.WrittenAs.noName.ofDirect _)
    rw [exprText]
    exact (Expr.IsWritten.cast span named.typeName
      (Expr.isWritten depth Precedence.unary operand legible.2)).parenthesized minimum
  | .sizeofExpr span operand, legible => by
    rw [Expr.isLegible] at legible
    rw [exprText]
    exact (Expr.IsWritten.sizeofExpr span (Expr.isWritten depth 0 operand legible)).parenthesized minimum
  | .sizeofType span type, legible => by
    rw [Expr.isLegible] at legible
    have named : type.PartsWritten typedefs none (declaratorParts depth none "" type) :=
      CType.partsWritten depth type legible (Declarator.WrittenAs.noName.ofDirect _)
    rw [exprText]
    exact (Expr.IsWritten.sizeofType span named.typeName).parenthesized minimum
  | .comma span parts, legible => by
    simp only [Expr.isLegible, Bool.and_eq_true, decide_eq_true_eq] at legible
    rw [exprText]
    refine (Expr.IsWritten.comma span ?_ legible.1).parenthesized minimum
    refine (Expr.listIsWritten depth _ parts legible.2).resolve_left ?_
    rintro rfl
    exact absurd legible.1 (by decide)
  | .compoundLiteral .., legible => by
    rw [Expr.isLegible] at legible
    cases legible
  | .typeArgument .., legible => by
    rw [Expr.isLegible] at legible
    cases legible

theorem Expr.listIsWritten (depth : Nat) (typesAllowed : Bool) : ∀ trees : List Expr,
    Expr.listLegible typedefs trees →
    trees = [] ∨ Expr.ListIsWritten typedefs typesAllowed trees (exprTexts depth trees)
  | [], _ => .inl rfl
  | tree :: trees, legible => by
    rw [Expr.listLegible, Bool.and_eq_true] at legible
    have first := Expr.isWritten depth Precedence.assignment tree legible.1
    right
    rw [exprTexts]
    rcases Expr.listIsWritten depth typesAllowed trees legible.2 with rfl | others
    · exact .single (first.argument _)
    · exact .cons (first.argument _) others

theorem CType.partsWritten (depth : Nat) : ∀ (type : CType), type.isLegible typedefs →
    ∀ {declared : Declarator} {inner : String} {lexemes : List Lexeme},
      declared.WrittenAs typedefs (isSuffixType type) inner lexemes →
      (declared.typeFrom type).PartsWritten typedefs declared.name (declaratorParts depth none inner type)
  | .pointer own target, legible, declared, inner, lexemes, written => by
    rw [CType.isLegible] at legible
    obtain ⟨more, pointed⟩ := written.pointerTo own target
    rw [declaratorParts]
    exact CType.partsWritten depth target legible pointed
  | .array element none, legible, declared, inner, lexemes, written => by
    rw [CType.isLegible] at legible
    obtain ⟨more, layered⟩ := written.arrayOf
    rw [declaratorParts]
    exact CType.partsWritten depth element legible (layered.ofDirect _)
  | .array element (some size), legible, declared, inner, lexemes, written => by
    simp only [CType.isLegible, Bool.and_eq_true, Bool.not_eq_true'] at legible
    obtain ⟨⟨legible, legibleSize⟩, noComma⟩ := legible
    obtain ⟨more, layered⟩ :=
      written.arrayOfSize (Expr.isWritten depth Precedence.assignment size legibleSize)
    rw [declaratorParts, exprText_zero (Expr.assignment_le_level noComma)]
    exact CType.partsWritten depth element legible (layered.ofDirect _)
  | .function result parameters isVariadic, legible, declared, inner, lexemes, written => by
    simp only [CType.isLegible, Bool.and_eq_true] at legible
    obtain ⟨more, layered⟩ :=
      written.functionOf (Parameter.listIsWritten depth isVariadic parameters legible.2)
    rw [declaratorParts]
    exact CType.partsWritten depth result legible.1 (layered.ofDirect _)
  | .qualified qualifiers type, legible, declared, inner, lexemes, written => by
    simp only [CType.isLegible, Bool.and_eq_true, Bool.not_eq_true'] at legible
    obtain ⟨⟨notEmpty, plain⟩, legible⟩ := legible
    obtain ⟨spec, words⟩ := CType.exists_wordsWritten plain legible
    rw [declaratorParts, declaratorParts_of_isPlain plain]
    exact .intro rfl (words.qualified notEmpty) written.any
  | .basic _, legible, _, _, _, written => written.partsOfPlain rfl legible depth
  | .named _, legible, _, _, _, written => written.partsOfPlain rfl legible depth
  | .record _ _ none, legible, _, _, _, written => written.partsOfPlain rfl legible depth
  | .enumeration _ none, legible, _, _, _, written => written.partsOfPlain rfl legible depth
  | .record _ _ (some _), legible, _, _, _, _ => by simp [CType.isLegible] at legible
  | .enumeration _ (some _), legible, _, _, _, _ => by simp [CType.isLegible] at legible

theorem Parameter.listIsWritten (depth : Nat) (isVariadic : Bool) : ∀ parameters : List Parameter,
    Parameter.listLegible typedefs parameters → parameters = [] ∧ isVariadic = false ∧
        parameterTexts depth parameters ++ (if isVariadic then ["..."] else []) = [] ∨
      Parameter.ListIsWritten typedefs parameters isVariadic
        (parameterTexts depth parameters ++ (if isVariadic then ["..."] else []))
  | [], _ => Parameter.ListIsWritten.nil isVariadic
  | ⟨name, type, span⟩ :: rest, legible => by
    simp only [Parameter.listLegible, Bool.and_eq_true] at legible
    obtain ⟨⟨ordinary, legible⟩, legibleRest⟩ := legible
    obtain ⟨named, writtenName⟩ : ∃ lexemes,
        Declarator.WrittenAs typedefs true { name := name } (name.getD "") lexemes :=
      exists_writtenName ordinary
    have parted : type.PartsWritten typedefs name (declaratorParts depth none (name.getD "") type) :=
      CType.partsWritten depth type legible (writtenName.ofDirect _)
    rw [parameterTexts, List.cons_append]
    exact .inr (.cons span parted (Parameter.listIsWritten depth isVariadic rest legibleRest))

end

end InlineMacro
