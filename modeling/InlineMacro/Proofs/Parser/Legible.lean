import InlineMacro.Proofs.Parser.Phrases
import InlineMacro.Proofs.Token.Writing

/-!
# Legible trees and their places

A place in the grammar goes with each precedence. What stands in a tighter place may stand in a looser
one, and operators, suffixes and the layers of declarators can be added at the end of what has been
put together.

A tree is legible if its names are ordinary identifiers, its literals are spelled as such, and nothing
stands in it that cannot be written so that it reads the same again: a point behind a number would
belong to the number, and the operand of a counting operator in front can be no cast.
-/

set_option autoImplicit false

namespace InlineMacro.Parser

/-! ## Places -/

def Place.ofPrecedence : Nat → Place
  | 0 | 1 => .expression
  | 2 => .assignment
  | 3 => .conditional
  | 14 => .cast
  | 15 => .operand
  | minimum => if minimum < 14 then .binary (minimum - 4) else .primary

theorem Place.ofPrecedence_primary (minimum : Nat) : ofPrecedence (minimum + 16) = .primary := by
  rw [ofPrecedence.eq_def]
  simp

theorem Place.ofPrecedence_level {level : Nat} (isLevel : level < binaryLevels) :
    ofPrecedence (level + 4) = .binary level := by
  have isBelow : level + 4 < 14 := Nat.add_lt_add_right isLevel 4
  rw [ofPrecedence.eq_def]
  split <;> simp_all

variable {typedefs : List String} {tree : Expr} {lexemes more : List Lexeme}

/-! ## Loosening -/

namespace Derives

theorem primary_suffixed (derives : Derives typedefs (.expr .primary tree) lexemes) :
    Derives typedefs (.expr .suffixed tree) lexemes := by
  rw [← List.append_nil lexemes]
  exact .suffixed derives .noSuffixes

theorem binary_loosen {level : Nat} (isLevel : level < binaryLevels)
    (derives : Derives typedefs (.expr (.binary (level + 1)) tree) lexemes) :
    Derives typedefs (.expr (.binary level) tree) lexemes := by
  rw [← List.append_nil lexemes]
  exact .operands isLevel derives .noOperators

theorem loosenOnce (minimum : Nat)
    (derives : Derives typedefs (.expr (.ofPrecedence (minimum + 1)) tree) lexemes) :
    Derives typedefs (.expr (.ofPrecedence minimum) tree) lexemes := by
  match minimum with
  | 0 => exact derives
  | 1 => exact .single derives
  | 2 => exact .value derives
  | 3 => exact .noChoice derives
  | 4 | 5 | 6 | 7 | 8 | 9 | 10 | 11 | 12 => exact derives.binary_loosen (by decide)
  | 13 => exact Derives.binary_loosen (show 9 < binaryLevels by decide) (.operand derives)
  | 14 => exact .anyOperand derives
  | 15 => exact .plainOperand derives.primary_suffixed
  | tighter + 16 =>
    rw [Place.ofPrecedence_primary]
    rwa [Nat.add_right_comm, Place.ofPrecedence_primary] at derives

theorem loosen {minimum tighter : Nat} (looser : minimum ≤ tighter)
    (derives : Derives typedefs (.expr (.ofPrecedence tighter) tree) lexemes) :
    Derives typedefs (.expr (.ofPrecedence minimum) tree) lexemes := by
  induction looser with
  | refl => exact derives
  | step _ ih => exact ih (derives.loosenOnce _)

theorem ofPrecedence_next {level : Nat} (isLevel : level < binaryLevels)
    (derives : Derives typedefs (.expr (.ofPrecedence (level + 4 + 1)) tree) lexemes) :
    Derives typedefs (.expr (.binary (level + 1)) tree) lexemes := by
  rcases Nat.lt_or_eq_of_le (Nat.succ_le_of_lt isLevel) with isNext | isLast
  · rwa [Nat.add_right_comm, Place.ofPrecedence_level isNext] at derives
  · obtain rfl : level = 9 := Nat.succ.inj isLast
    exact .operand derives

theorem ofPrimary (derives : Derives typedefs (.expr .primary tree) lexemes) (minimum : Nat) :
    Derives typedefs (.expr (.ofPrecedence minimum) tree) lexemes := by
  refine loosen (Nat.le_add_right minimum 16) ?_
  rwa [Place.ofPrecedence_primary]

/-! ## Adding at the end -/

theorem operators_append {level : Nat} {left middle : Expr}
    (first : Derives typedefs (.operators level left middle) lexemes)
    (second : Derives typedefs (.operators level middle tree) more) :
    Derives typedefs (.operators level left tree) (lexemes ++ more) := by
  generalize phrase : Phrase.operators level left middle = given at first
  induction first generalizing left with
  | noOperators =>
    cases phrase
    exact second
  | operator span isOperator operand _ _ ih =>
    cases phrase
    rw [List.cons_append, List.append_assoc]
    exact .operator span isOperator operand (ih rfl)
  | _ => cases phrase

theorem binary {level : Nat} {left right : Expr} {sign : Mark} {operator : BinaryOperator}
    (first : Derives typedefs (.expr (.binary level) left) lexemes)
    (isOperator : binaryOperator? sign = some (level, operator))
    (second : Derives typedefs (.expr (.binary (level + 1)) right) more) (span : Span) :
    Derives typedefs (.expr (.binary level) (.binary span operator left right))
      (lexemes ++ .mark sign :: more) := by
  have last : Derives typedefs (.operators level left (.binary span operator left right))
      (.mark sign :: more) := by
    rw [← List.append_nil more]
    exact .operator span isOperator second .noOperators
  cases first with
  | operands isLevel operand further =>
    rw [List.append_assoc]
    exact .operands isLevel operand (further.operators_append last)
  | operand _ => cases sign <;> cases isOperator

theorem suffixes_append {operand middle : Expr} (first : Derives typedefs (.suffixes operand middle) lexemes)
    (second : Derives typedefs (.suffixes middle tree) more) :
    Derives typedefs (.suffixes operand tree) (lexemes ++ more) := by
  generalize phrase : Phrase.suffixes operand middle = given at first
  induction first generalizing operand with
  | noSuffixes =>
    cases phrase
    exact second
  | index span position _ _ ih =>
    cases phrase
    rw [List.cons_append, List.append_assoc, List.cons_append]
    exact .index span position (ih rfl)
  | callNone span _ ih =>
    cases phrase
    exact .callNone span (ih rfl)
  | call span arguments _ _ ih =>
    cases phrase
    rw [List.cons_append, List.append_assoc, List.cons_append]
    exact .call span arguments (ih rfl)
  | member span _ ih =>
    cases phrase
    exact .member span (ih rfl)
  | counted span isOperator _ ih =>
    cases phrase
    exact .counted span isOperator (ih rfl)
  | _ => cases phrase

theorem operand_append {operand : Expr} (first : Derives typedefs (.expr .operand operand) lexemes)
    (last : Derives typedefs (.suffixes operand tree) more) :
    Derives typedefs (.expr .operand tree) (lexemes ++ more) := by
  cases first with
  | plainOperand inner =>
    cases inner with
    | suffixed primary further =>
      rw [List.append_assoc]
      exact .plainOperand (.suffixed primary (further.suffixes_append last))
  | compoundOperand span names list further =>
    rw [List.cons_append, List.append_assoc, List.cons_append, List.append_assoc]
    exact .compoundOperand span names list (further.suffixes_append last)

theorem parts_of_arguments {first : Expr} {others : List Expr}
    (arguments : Derives typedefs (.arguments false (first :: others)) lexemes) :
    ∃ front behind, lexemes = front ++ behind ∧ Derives typedefs (.expr .assignment first) front ∧
      Derives typedefs (.parts others) behind := by
  induction others generalizing first lexemes with
  | nil =>
    cases arguments with
    | lastArgument argument =>
      cases argument with
      | plainArgument value => exact ⟨lexemes, [], (List.append_nil _).symm, value, .noParts⟩
    | moreArguments _ none => cases none
  | cons second others ih =>
    cases arguments with
    | moreArguments argument further =>
      cases argument with
      | plainArgument value =>
        obtain ⟨front, behind, rfl, next, parts⟩ := ih further
        exact ⟨_, _, rfl, value, .part next parts⟩

theorem layers_append {layers last : List Derivation}
    (first : Derives typedefs (.layers layers) lexemes) (second : Derives typedefs (.layers last) more) :
    Derives typedefs (.layers (layers ++ last)) (lexemes ++ more) := by
  generalize phrase : Phrase.layers layers = given at first
  induction first generalizing layers with
  | noLayers =>
    cases phrase
    exact second
  | array size _ _ ih =>
    cases phrase
    rw [List.cons_append, List.cons_append, List.append_assoc, List.cons_append]
    exact .array size (ih rfl)
  | functionNone _ ih =>
    cases phrase
    exact .functionNone (ih rfl)
  | function parameters _ _ ih =>
    cases phrase
    rw [List.cons_append, List.cons_append, List.append_assoc, List.cons_append]
    exact .function parameters (ih rfl)
  | _ => cases phrase

end Derives

end InlineMacro.Parser

namespace InlineMacro

/-! ## Legible trees -/

def isOrdinary (name : String) : Bool :=
  (Lexeme.identifier name).isSpelled && ! Annotation.announces (.identifier name)

namespace Expr

def isNumber : Expr → Bool
  | .intLiteral .. | .floatLiteral .. => true
  | _ => false

def isCast : Expr → Bool
  | .cast .. => true
  | _ => false

def isComma : Expr → Bool
  | .comma .. => true
  | _ => false

def startsLiteral : Expr → Bool
  | .compoundLiteral .. => true
  | .binary _ operator left _ => operator == .index && left.startsLiteral
  | .unary _ operator operand => operator.followsOperand && operand.startsLiteral
  | .call _ function _ => function.startsLiteral
  | .member _ object _ _ => object.startsLiteral
  | _ => false

end Expr

def CType.isPlain : CType → Bool
  | .basic _ | .named _ | .record _ _ none | .enumeration _ none => true
  | _ => false

mutual

/-- Whether an expression can be written so that it reads the same, where the given names are those of
types. -/
def Expr.isLegible (typedefs : List String) : Expr → Bool
  | .intLiteral _ spelling => (Lexeme.intLiteral spelling).isSpelled
  | .floatLiteral _ spelling => (Lexeme.floatLiteral spelling).isSpelled
  | .charLiteral _ spelling => (Lexeme.charLiteral spelling).isSpelled
  | .stringLiteral _ pieces =>
    !pieces.isEmpty && pieces.all fun piece => (Lexeme.stringLiteral piece).isSpelled
  | .identifier _ name => isOrdinary name && !typedefs.contains name
  | .binary _ _ left right => left.isLegible typedefs && right.isLegible typedefs
  | .unary _ operator operand =>
    operand.isLegible typedefs && !(operator.followsOperand && operand.isNumber) &&
      !(Parser.takesUnaryOperand operator && operand.isCast)
  | .call _ function arguments => function.isLegible typedefs && Expr.listLegible typedefs arguments
  | .member _ object name _ => object.isLegible typedefs && !object.isNumber && isOrdinary name
  | .conditional _ condition thenValue elseValue =>
    condition.isLegible typedefs && thenValue.isLegible typedefs && elseValue.isLegible typedefs
  | .cast _ target operand => target.isLegible typedefs && operand.isLegible typedefs
  | .sizeofExpr _ operand => operand.isLegible typedefs
  | .sizeofType _ type => type.isLegible typedefs
  | .compoundLiteral .. | .typeArgument .. => false
  | .comma _ parts => 2 ≤ parts.length && Expr.listLegible typedefs parts

def Expr.listLegible (typedefs : List String) : List Expr → Bool
  | [] => true
  | part :: parts => part.isLegible typedefs && Expr.listLegible typedefs parts

def CType.isLegible (typedefs : List String) : CType → Bool
  | .basic _ => true
  | .named name => isOrdinary name && typedefs.contains name
  | .record _ (some tag) none | .enumeration (some tag) none => isOrdinary tag
  | .record .. | .enumeration .. => false
  | .qualified qualifiers inner => !qualifiers.isEmpty && inner.isPlain && inner.isLegible typedefs
  | .pointer _ target => target.isLegible typedefs
  | .array element none => element.isLegible typedefs
  | .array element (some size) =>
    element.isLegible typedefs && size.isLegible typedefs && !size.isComma
  | .function result parameters _ =>
    result.isLegible typedefs && Parameter.listLegible typedefs parameters

def Parameter.listLegible (typedefs : List String) : List Parameter → Bool
  | [] => true
  | ⟨name, type, _⟩ :: rest =>
    name.all isOrdinary && type.isLegible typedefs && Parameter.listLegible typedefs rest

end

/-! ## Words and marks of the printer -/

theorem Written.identifier {name : String} (ordinary : isOrdinary name) :
    Written name [.identifier name] := by
  obtain ⟨spelled, plain⟩ := Bool.and_eq_true_iff.mp ordinary
  exact Written.lexeme spelled (Bool.not_eq_true' _ ▸ plain)

theorem isIdentifierStart_of_ordinary {name : String} (ordinary : isOrdinary name) :
    ∀ character ∈ name.toList.head?, Lexer.isIdentifierStart character := by
  intro character member
  obtain ⟨spelled, -⟩ := Bool.and_eq_true_iff.mp ordinary
  obtain ⟨others, same⟩ := List.head?_eq_some_iff.mp member
  have isWord := (Bool.and_eq_true_iff.mp spelled).1
  rw [same] at isWord
  exact (Bool.and_eq_true_iff.mp isWord).1

theorem BinaryOperator.exists_sign (operator : BinaryOperator) (notIndex : operator ≠ .index) :
    ∃ sign : Mark, sign.spelling = operator.symbol ∧
      if operator.isAssignment then Parser.assignmentOperator? sign = some operator
      else ∃ level < Parser.binaryLevels, operator.precedence = level + 4 ∧
        Parser.binaryOperator? sign = some (level, operator) := by
  have found : ∃ sign ∈ Mark.byLength, sign.spelling = operator.symbol ∧
      if operator.isAssignment then Parser.assignmentOperator? sign = some operator
      else ∃ level < Parser.binaryLevels, operator.precedence = level + 4 ∧
        Parser.binaryOperator? sign = some (level, operator) := by
    cases operator <;> first | decide | exact absurd rfl notIndex
  obtain ⟨sign, -, same⟩ := found
  exact ⟨sign, same⟩

end InlineMacro
