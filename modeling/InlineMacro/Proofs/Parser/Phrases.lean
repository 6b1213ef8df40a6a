import InlineMacro.Parser.Expression

/-!
# Phrases

The grammar as a relation between trees and the lexemes that they can be written with, parentheses
that are not needed included. There is a phrase for every production of the parser and for every loop
in one, with what has been read so far where a loop goes on from it.
-/

set_option autoImplicit false

namespace InlineMacro.Parser

/-- The productions for expressions, each with what binds at least as tightly. An operand is what
operators can stand behind: a compound literal is one, but its parentheses are those of a cast. -/
inductive Place where
  | expression
  | assignment
  | conditional
  | binary (level : Nat)
  | cast
  | unary
  | operand
  | suffixed
  | primary
deriving DecidableEq, Repr

/-- What a part of the grammar reads. -/
inductive Phrase where
  | expr (place : Place) (tree : Expr)
  | parts (trees : List Expr)
  | operators (level : Nat) (left tree : Expr)
  | suffixes (operand tree : Expr)
  | argument (typesAllowed : Bool) (tree : Expr)
  | arguments (typesAllowed : Bool) (trees : List Expr)
  | initializer (tree : Initializer)
  | braced (tree : Initializer)
  | entry (tree : Initializer)
  | entries (trees : List Initializer)
  | designators (designators : List Designator)
  | typeName (type : CType)
  | specifiers (given : Specifiers)
  | words (read result : SpecifierWords)
  | bodied (kind : BodiedType) (type : CType)
  | fields (fields : List Field)
  | enumerator (constant : Enumerator)
  | enumerators (constants : List Enumerator)
  | declarator (declared : Declarator)
  | pointers (layers : List Derivation)
  | core (declared : Declarator)
  | layers (layers : List Derivation)
  | size (size : Option Expr)
  | parameter (parameter : Parameter)
  | parameters (parameters : List Parameter) (isVariadic : Bool)

def countingOperator? : Mark → Option UnaryOperator
  | .plusPlus => some .postIncrement
  | .minusMinus => some .postDecrement
  | _ => none

def opensType (typedefs : List String) (kind : Lexeme) : Bool :=
  State.startsType ⟨[], typedefs, .synthetic⟩ (some kind)

open Lexeme (intLiteral floatLiteral charLiteral stringLiteral identifier keyword mark)

/-- Lexemes are a phrase of the grammar, given the names of types. -/
inductive Derives (typedefs : List String) : Phrase → List Lexeme → Prop where
  -- Expressions, from the loosest to the tightest.
  | single {tree : Expr} {lexemes : List Lexeme} :
    Derives typedefs (.expr .assignment tree) lexemes →
    Derives typedefs (.expr .expression tree) lexemes
  | sequence {first : Expr} {others : List Expr} {lexemes more : List Lexeme} (span : Span) :
    Derives typedefs (.expr .assignment first) lexemes → Derives typedefs (.parts others) more →
    others ≠ [] → Derives typedefs (.expr .expression (.comma span (first :: others))) (lexemes ++ more)
  | noParts : Derives typedefs (.parts []) []
  | part {tree : Expr} {trees : List Expr} {lexemes more : List Lexeme} :
    Derives typedefs (.expr .assignment tree) lexemes → Derives typedefs (.parts trees) more →
    Derives typedefs (.parts (tree :: trees)) (mark .comma :: (lexemes ++ more))
  | value {tree : Expr} {lexemes : List Lexeme} :
    Derives typedefs (.expr .conditional tree) lexemes →
    Derives typedefs (.expr .assignment tree) lexemes
  | assign {left right : Expr} {sign : Mark} {operator : BinaryOperator} {lexemes more : List Lexeme}
    (span : Span) : Derives typedefs (.expr .conditional left) lexemes →
    assignmentOperator? sign = some operator → Derives typedefs (.expr .assignment right) more →
    Derives typedefs (.expr .assignment (.binary span operator left right))
      (lexemes ++ mark sign :: more)
  | noChoice {tree : Expr} {lexemes : List Lexeme} :
    Derives typedefs (.expr (.binary 0) tree) lexemes →
    Derives typedefs (.expr .conditional tree) lexemes
  | choice {condition thenValue elseValue : Expr} {lexemes more others : List Lexeme} (span : Span) :
    Derives typedefs (.expr (.binary 0) condition) lexemes →
    Derives typedefs (.expr .expression thenValue) more →
    Derives typedefs (.expr .conditional elseValue) others →
    Derives typedefs (.expr .conditional (.conditional span condition thenValue elseValue))
      (lexemes ++ mark .question :: (more ++ mark .colon :: others))
  | operands {level : Nat} {first tree : Expr} {lexemes more : List Lexeme} : level < binaryLevels →
    Derives typedefs (.expr (.binary (level + 1)) first) lexemes →
    Derives typedefs (.operators level first tree) more →
    Derives typedefs (.expr (.binary level) tree) (lexemes ++ more)
  | noOperators {level : Nat} {tree : Expr} : Derives typedefs (.operators level tree tree) []
  | operator {level : Nat} {left right tree : Expr} {sign : Mark} {operator : BinaryOperator}
    {lexemes more : List Lexeme} (span : Span) : binaryOperator? sign = some (level, operator) →
    Derives typedefs (.expr (.binary (level + 1)) right) lexemes →
    Derives typedefs (.operators level (.binary span operator left right) tree) more →
    Derives typedefs (.operators level left tree) (mark sign :: (lexemes ++ more))
  | operand {tree : Expr} {lexemes : List Lexeme} : Derives typedefs (.expr .cast tree) lexemes →
    Derives typedefs (.expr (.binary binaryLevels) tree) lexemes
  | noCast {tree : Expr} {lexemes : List Lexeme} : Derives typedefs (.expr .unary tree) lexemes →
    Derives typedefs (.expr .cast tree) lexemes
  | cast {type : CType} {operand : Expr} {lexemes more : List Lexeme} (span : Span) :
    Derives typedefs (.typeName type) lexemes → Derives typedefs (.expr .cast operand) more →
    Derives typedefs (.expr .cast (.cast span type operand))
      (mark .leftParen :: (lexemes ++ mark .rightParen :: more))
  | anyOperand {tree : Expr} {lexemes : List Lexeme} : Derives typedefs (.expr .operand tree) lexemes →
    Derives typedefs (.expr .cast tree) lexemes
  | plainOperand {tree : Expr} {lexemes : List Lexeme} :
    Derives typedefs (.expr .suffixed tree) lexemes → Derives typedefs (.expr .operand tree) lexemes
  | compoundOperand {type : CType} {value : Initializer} {tree : Expr}
    {lexemes more others : List Lexeme} (span : Span) : Derives typedefs (.typeName type) lexemes →
    Derives typedefs (.braced value) more →
    Derives typedefs (.suffixes (.compoundLiteral span type value) tree) others →
    Derives typedefs (.expr .operand tree)
      (mark .leftParen :: (lexemes ++ mark .rightParen :: (more ++ others)))
  | noPrefix {tree : Expr} {lexemes : List Lexeme} :
    Derives typedefs (.expr .suffixed tree) lexemes → Derives typedefs (.expr .unary tree) lexemes
  | prefixed {operand : Expr} {sign : Mark} {operator : UnaryOperator} {lexemes : List Lexeme}
    (span : Span) : unaryOperator? sign = some operator →
    Derives typedefs (.expr (if takesUnaryOperand operator then .unary else .cast) operand) lexemes →
    Derives typedefs (.expr .unary (.unary span operator operand)) (mark sign :: lexemes)
  | sizeofExpr {operand : Expr} {lexemes : List Lexeme} (span : Span) :
    Derives typedefs (.expr .unary operand) lexemes →
    Derives typedefs (.expr .unary (.sizeofExpr span operand)) (keyword .kwSizeof :: lexemes)
  | sizeofType {type : CType} {lexemes : List Lexeme} (span : Span) :
    Derives typedefs (.typeName type) lexemes →
    Derives typedefs (.expr .unary (.sizeofType span type))
      (keyword .kwSizeof :: mark .leftParen :: (lexemes ++ [mark .rightParen]))
  | suffixed {first tree : Expr} {lexemes more : List Lexeme} :
    Derives typedefs (.expr .primary first) lexemes → Derives typedefs (.suffixes first tree) more →
    Derives typedefs (.expr .suffixed tree) (lexemes ++ more)
  | noSuffixes {tree : Expr} : Derives typedefs (.suffixes tree tree) []
  | index {operand index tree : Expr} {lexemes more : List Lexeme} (span : Span) :
    Derives typedefs (.expr .expression index) lexemes →
    Derives typedefs (.suffixes (.binary span .index operand index) tree) more →
    Derives typedefs (.suffixes operand tree)
      (mark .leftBracket :: (lexemes ++ mark .rightBracket :: more))
  | callNone {operand tree : Expr} {more : List Lexeme} (span : Span) :
    Derives typedefs (.suffixes (.call span operand []) tree) more →
    Derives typedefs (.suffixes operand tree) (mark .leftParen :: mark .rightParen :: more)
  | call {operand tree : Expr} {trees : List Expr} {lexemes more : List Lexeme} (span : Span) :
    Derives typedefs (.arguments (takesTypes operand) trees) lexemes →
    Derives typedefs (.suffixes (.call span operand trees) tree) more →
    Derives typedefs (.suffixes operand tree)
      (mark .leftParen :: (lexemes ++ mark .rightParen :: more))
  | member {operand tree : Expr} {name : String} {throughPointer : Bool} {more : List Lexeme}
    (span : Span) : Derives typedefs (.suffixes (.member span operand name throughPointer) tree) more →
    Derives typedefs (.suffixes operand tree)
      (mark (if throughPointer then .arrow else .dot) :: identifier name :: more)
  | counted {operand tree : Expr} {sign : Mark} {operator : UnaryOperator} {more : List Lexeme}
    (span : Span) : countingOperator? sign = some operator →
    Derives typedefs (.suffixes (.unary span operator operand) tree) more →
    Derives typedefs (.suffixes operand tree) (mark sign :: more)
  | plainArgument {typesAllowed : Bool} {tree : Expr} {lexemes : List Lexeme} :
    Derives typedefs (.expr .assignment tree) lexemes →
    Derives typedefs (.argument typesAllowed tree) lexemes
  | typeArgument {type : CType} {lexemes : List Lexeme} (span : Span) :
    Derives typedefs (.typeName type) lexemes →
    Derives typedefs (.argument true (.typeArgument span type)) lexemes
  | lastArgument {typesAllowed : Bool} {tree : Expr} {lexemes : List Lexeme} :
    Derives typedefs (.argument typesAllowed tree) lexemes →
    Derives typedefs (.arguments typesAllowed [tree]) lexemes
  | moreArguments {typesAllowed : Bool} {tree : Expr} {trees : List Expr} {lexemes more : List Lexeme} :
    Derives typedefs (.argument typesAllowed tree) lexemes →
    Derives typedefs (.arguments typesAllowed trees) more →
    Derives typedefs (.arguments typesAllowed (tree :: trees)) (lexemes ++ mark .comma :: more)
  | intLiteral (span : Span) (spelling : String) :
    Derives typedefs (.expr .primary (.intLiteral span spelling)) [intLiteral spelling]
  | floatLiteral (span : Span) (spelling : String) :
    Derives typedefs (.expr .primary (.floatLiteral span spelling)) [floatLiteral spelling]
  | charLiteral (span : Span) (spelling : String) :
    Derives typedefs (.expr .primary (.charLiteral span spelling)) [charLiteral spelling]
  | stringLiteral {pieces : List String} (span : Span) : pieces ≠ [] →
    Derives typedefs (.expr .primary (.stringLiteral span pieces)) (pieces.map stringLiteral)
  | identifier {name : String} (span : Span) : name ∉ typedefs →
    Derives typedefs (.expr .primary (.identifier span name)) [identifier name]
  | parenthesized {tree : Expr} {lexemes : List Lexeme} :
    Derives typedefs (.expr .expression tree) lexemes →
    Derives typedefs (.expr .primary tree) (mark .leftParen :: (lexemes ++ [mark .rightParen]))
  -- Initializers. A comma may stand behind the last entry of a list.
  | plainInitializer {tree : Expr} {lexemes : List Lexeme} (span : Span) :
    Derives typedefs (.expr .assignment tree) lexemes →
    Derives typedefs (.initializer (.expression span tree)) lexemes
  | bracedInitializer {tree : Initializer} {lexemes : List Lexeme} :
    Derives typedefs (.braced tree) lexemes → Derives typedefs (.initializer tree) lexemes
  | braced {items : List Initializer} {lexemes : List Lexeme} (span : Span) :
    Derives typedefs (.entries items) lexemes →
    Derives typedefs (.braced (.list span items)) (mark .leftBrace :: (lexemes ++ [mark .rightBrace]))
  | plainEntry {tree : Initializer} {lexemes : List Lexeme} :
    Derives typedefs (.initializer tree) lexemes → Derives typedefs (.entry tree) lexemes
  | designated {designators : List Designator} {tree : Initializer} {lexemes more : List Lexeme}
    (span : Span) : Derives typedefs (.designators designators) lexemes → designators ≠ [] →
    Derives typedefs (.initializer tree) more →
    Derives typedefs (.entry (.designated span designators tree)) (lexemes ++ mark .equal :: more)
  | noEntries : Derives typedefs (.entries []) []
  | lastEntry {tree : Initializer} {lexemes : List Lexeme} : Derives typedefs (.entry tree) lexemes →
    Derives typedefs (.entries [tree]) lexemes
  | moreEntries {tree : Initializer} {trees : List Initializer} {lexemes more : List Lexeme} :
    Derives typedefs (.entry tree) lexemes → Derives typedefs (.entries trees) more →
    Derives typedefs (.entries (tree :: trees)) (lexemes ++ mark .comma :: more)
  | noDesignators : Derives typedefs (.designators []) []
  | indexDesignator {index : Expr} {designators : List Designator} {lexemes more : List Lexeme} :
    Derives typedefs (.expr .conditional index) lexemes →
    Derives typedefs (.designators designators) more →
    Derives typedefs (.designators (.index index :: designators))
      (mark .leftBracket :: (lexemes ++ mark .rightBracket :: more))
  | memberDesignator {designators : List Designator} {more : List Lexeme} (name : String) :
    Derives typedefs (.designators designators) more →
    Derives typedefs (.designators (.member name :: designators)) (mark .dot :: identifier name :: more)
  -- Types, from a type name inwards.
  | typeName {given : Specifiers} {layers : List Derivation} {lexemes more : List Lexeme} :
    Derives typedefs (.specifiers given) lexemes → given.storage = none →
    (∀ kind ∈ lexemes.head?, opensType typedefs kind) →
    Derives typedefs (.declarator ⟨none, layers⟩) more →
    Derives typedefs (.typeName (layers.foldl Derivation.apply given.base)) (lexemes ++ more)
  | specifiers {result : SpecifierWords} {lexemes : List Lexeme} :
    Derives typedefs (.words {} result) lexemes → result.hasType → result.isEmpty = false →
    Derives typedefs (.specifiers ⟨result.storage, result.isInline, result.base⟩) lexemes
  | noWords {read : SpecifierWords} : Derives typedefs (.words read read) []
  | word {read next result : SpecifierWords} {word : Keyword} {more : List Lexeme} :
    bodiedTypeOfKeyword? word = none → read.addKeyword? word = some next → next.words.fits →
    Derives typedefs (.words next result) more →
    Derives typedefs (.words read result) (keyword word :: more)
  | typedefName {read result : SpecifierWords} {name : String} {more : List Lexeme} :
    read.hasType = false → name ∈ typedefs →
    Derives typedefs (.words { read with named := some (.named name), isEmpty := false } result) more →
    Derives typedefs (.words read result) (identifier name :: more)
  | bodiedWord {read result : SpecifierWords} {word : Keyword} {kind : BodiedType} {type : CType}
    {lexemes more : List Lexeme} : bodiedTypeOfKeyword? word = some kind → read.hasType = false →
    Derives typedefs (.bodied kind type) lexemes →
    Derives typedefs (.words { read with named := some type, isEmpty := false } result) more →
    Derives typedefs (.words read result) (keyword word :: (lexemes ++ more))
  | recordTag (kind : RecordKind) (tag : String) :
    Derives typedefs (.bodied (.record kind) (.record kind (some tag) none)) [identifier tag]
  | enumerationTag (tag : String) :
    Derives typedefs (.bodied .enumeration (.enumeration (some tag) none)) [identifier tag]
  | recordBody {fields : List Field} {lexemes : List Lexeme} (kind : RecordKind) (tag : Option String) :
    Derives typedefs (.fields fields) lexemes →
    Derives typedefs (.bodied (.record kind) (.record kind tag (some fields)))
      (tag.toList.map identifier ++ mark .leftBrace :: (lexemes ++ [mark .rightBrace]))
  | enumerationBody {enumerators : List Enumerator} {lexemes : List Lexeme} (tag : Option String) :
    Derives typedefs (.enumerators enumerators) lexemes →
    Derives typedefs (.bodied .enumeration (.enumeration tag (some enumerators)))
      (tag.toList.map identifier ++ mark .leftBrace :: (lexemes ++ [mark .rightBrace]))
  | noFields : Derives typedefs (.fields []) []
  | bareField {given : Specifiers} {fields : List Field} {lexemes more : List Lexeme} :
    Derives typedefs (.specifiers given) lexemes → Derives typedefs (.fields fields) more →
    Derives typedefs (.fields (⟨none, given.base, none⟩ :: fields)) (lexemes ++ mark .semicolon :: more)
  | field {given : Specifiers} {declared : Declarator} {fields : List Field}
    {lexemes more others : List Lexeme} : Derives typedefs (.specifiers given) lexemes →
    Derives typedefs (.declarator declared) more → more ≠ [] → Derives typedefs (.fields fields) others →
    Derives typedefs (.fields (⟨declared.name, declared.typeFrom given.base, none⟩ :: fields))
      (lexemes ++ (more ++ mark .semicolon :: others))
  | wideField {given : Specifiers} {declared : Declarator} {width : Expr} {fields : List Field}
    {lexemes more wide others : List Lexeme} : Derives typedefs (.specifiers given) lexemes →
    Derives typedefs (.declarator declared) more → Derives typedefs (.expr .conditional width) wide →
    Derives typedefs (.fields fields) others →
    Derives typedefs (.fields (⟨declared.name, declared.typeFrom given.base, some width⟩ :: fields))
      (lexemes ++ (more ++ mark .colon :: (wide ++ mark .semicolon :: others)))
  | plainEnumerator (name : String) : Derives typedefs (.enumerator ⟨name, none⟩) [identifier name]
  | valuedEnumerator {value : Expr} {lexemes : List Lexeme} (name : String) :
    Derives typedefs (.expr .conditional value) lexemes →
    Derives typedefs (.enumerator ⟨name, some value⟩) (identifier name :: mark .equal :: lexemes)
  | noEnumerators : Derives typedefs (.enumerators []) []
  | lastEnumerator {constant : Enumerator} {lexemes : List Lexeme} :
    Derives typedefs (.enumerator constant) lexemes →
    Derives typedefs (.enumerators [constant]) lexemes
  | moreEnumerators {constant : Enumerator} {constants : List Enumerator} {lexemes more : List Lexeme} :
    Derives typedefs (.enumerator constant) lexemes → Derives typedefs (.enumerators constants) more →
    Derives typedefs (.enumerators (constant :: constants)) (lexemes ++ mark .comma :: more)
  | declarator {inner : Declarator} {pointers layers : List Derivation}
    {lexemes more others : List Lexeme} : Derives typedefs (.pointers pointers) lexemes →
    Derives typedefs (.core inner) more → Derives typedefs (.layers layers) others →
    Derives typedefs (.declarator ⟨inner.name, pointers ++ layers.reverse ++ inner.derivations⟩)
      (lexemes ++ (more ++ others))
  | noPointers : Derives typedefs (.pointers []) []
  | pointer {words : List Keyword} {qualifiers : Qualifiers} {layers : List Derivation}
    {more : List Lexeme} : words.foldlM addQualifier? {} = some qualifiers →
    Derives typedefs (.pointers layers) more →
    Derives typedefs (.pointers (.pointer qualifiers :: layers))
      (mark .star :: (words.map keyword ++ more))
  | noName : Derives typedefs (.core {}) []
  | name (name : String) : Derives typedefs (.core { name := some name }) [identifier name]
  | nested {declared : Declarator} {lexemes : List Lexeme} :
    Derives typedefs (.declarator declared) (mark .star :: lexemes) →
    Derives typedefs (.core declared) (mark .leftParen :: mark .star :: (lexemes ++ [mark .rightParen]))
  | noLayers : Derives typedefs (.layers []) []
  | array {size : Option Expr} {layers : List Derivation} {lexemes more : List Lexeme} :
    Derives typedefs (.size size) lexemes → Derives typedefs (.layers layers) more →
    Derives typedefs (.layers (.array size :: layers))
      (mark .leftBracket :: (lexemes ++ mark .rightBracket :: more))
  | functionNone {layers : List Derivation} {more : List Lexeme} :
    Derives typedefs (.layers layers) more →
    Derives typedefs (.layers (.function [] false :: layers))
      (mark .leftParen :: mark .rightParen :: more)
  | function {parameters : List Parameter} {isVariadic : Bool} {layers : List Derivation}
    {lexemes more : List Lexeme} : Derives typedefs (.parameters parameters isVariadic) lexemes →
    Derives typedefs (.layers layers) more →
    Derives typedefs (.layers (.function parameters isVariadic :: layers))
      (mark .leftParen :: (lexemes ++ mark .rightParen :: more))
  | noSize : Derives typedefs (.size none) []
  | someSize {size : Expr} {lexemes : List Lexeme} : Derives typedefs (.expr .assignment size) lexemes →
    Derives typedefs (.size (some size)) lexemes
  | parameter {given : Specifiers} {declared : Declarator} {lexemes more : List Lexeme} (span : Span) :
    Derives typedefs (.specifiers given) lexemes → Derives typedefs (.declarator declared) more →
    Derives typedefs (.parameter ⟨declared.name, declared.typeFrom given.base, span⟩) (lexemes ++ more)
  | ellipsis : Derives typedefs (.parameters [] true) [mark .ellipsis]
  | lastParameter {parameter : Parameter} {lexemes : List Lexeme} :
    Derives typedefs (.parameter parameter) lexemes →
    Derives typedefs (.parameters [parameter] false) lexemes
  | moreParameters {parameter : Parameter} {parameters : List Parameter} {isVariadic : Bool}
    {lexemes more : List Lexeme} : Derives typedefs (.parameter parameter) lexemes →
    Derives typedefs (.parameters parameters isVariadic) more →
    Derives typedefs (.parameters (parameter :: parameters) isVariadic) (lexemes ++ mark .comma :: more)

end InlineMacro.Parser
