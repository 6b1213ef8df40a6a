import InlineMacro.Macroize
import InlineMacro.Proofs.Syntax.Induction
import InlineMacro.Proofs.Token.KnownWords

/-!
# The words of printed text

The words that the printer writes are the names in the tree and keywords, and it parts them from each
other. A number is followed by nothing that belongs to it, except for a point in front of a member: it
takes this member in, which must then consist of what a number may consist of.
-/

set_option autoImplicit false

namespace InlineMacro

open Printer

/-! ## Trees -/

def Node.lexemes : Node → List Lexeme
  | .expression (.intLiteral _ spelling) => [.intLiteral spelling]
  | .expression (.floatLiteral _ spelling) => [.floatLiteral spelling]
  | .expression (.charLiteral _ spelling) => [.charLiteral spelling]
  | .expression (.stringLiteral _ pieces) => pieces.map .stringLiteral
  | .initializer (.designated _ designators _) =>
    designators.filterMap fun
      | .member name => some (.identifier name)
      | .index _ => none
  | node => node.names.map .identifier

def Initializer.isList : Initializer → Bool
  | .list .. => true
  | _ => false

def Expr.isNumeral : Expr → Bool
  | .intLiteral .. | .floatLiteral .. => true
  | .member _ object _ throughPointer => !throughPointer && object.isNumeral
  | _ => false

def Node.cutsMember : Node → Bool
  | .expression (.member _ object name false) =>
    object.isNumeral && !name.toList.all Lexer.isNumberCharacter
  | _ => false

/-- The words and literals in a node are spelled as such, and the words are known. -/
structure Node.IsSpelled (known : String → Prop) (node : Node) : Prop where
  spelled : ∀ kind ∈ node.lexemes, kind.isSpelled
  known : ∀ name, .identifier name ∈ node.lexemes → known name
  list : ∀ span type value, node = .expression (.compoundLiteral span type value) → value.isList
  whole : node.cutsMember = false

def Node.AllSpelled (known : String → Prop) (nodes : List Node) : Prop :=
  ∀ node ∈ nodes, node.IsSpelled known

namespace Node

variable {known : String → Prop}

theorem allSpelled_cons {node : Node} {nodes : List Node} :
    AllSpelled known (node :: nodes) ↔ node.IsSpelled known ∧ AllSpelled known nodes :=
  List.forall_mem_cons

theorem allSpelled_append {first second : List Node} :
    AllSpelled known (first ++ second) ↔ AllSpelled known first ∧ AllSpelled known second :=
  List.forall_mem_append

theorem IsSpelled.piece {node : Node} (spelled : node.IsSpelled known) {name : String}
    (among : .identifier name ∈ node.lexemes) : Piece known .word name :=
  .name (spelled.spelled _ among) (spelled.known name among)

end Node

open Node (AllSpelled allSpelled_cons allSpelled_append)

/-! ## Forms -/

namespace Piece

variable {known : String → Prop} {ending : PieceEnd} {text front : String} {texts : List String}

theorem empty : Piece known ending "" := .fixed rfl

theorem then_fixed (first : Piece known .number front) (isFixed : isFixedFrom false [] text.toList)
    (parts : PieceEnd.number.parts text) : Piece known ending (front ++ text) :=
  first.before_parting (.fixed isFixed) parts

theorem joined (each : ∀ text ∈ texts, Piece known .closed text) : Piece known .closed (String.join texts) := by
  induction texts with
  | nil => exact empty
  | cons text texts ih =>
    rw [List.forall_mem_cons] at each
    rw [String.join_cons]
    exact each.1.closed_append (ih each.2)

theorem join {separator : String} (isFixed : isFixedFrom false [] separator.toList)
    (parts : PieceEnd.number.parts separator) (each : ∀ text ∈ texts, Piece known .number text) :
    Piece known .number (Text.join separator texts) := by
  induction texts with
  | nil => exact empty
  | cons text texts ih =>
    rw [List.forall_mem_cons] at each
    cases texts with
    | nil => exact each.1
    | cons => exact (each.1.then_fixed isFixed parts).closed_append (ih each.2)

theorem joinCommas (each : ∀ text ∈ texts, Piece known .number text) :
    Piece known .number (Text.join ", " texts) :=
  join (by decide) (by decide) each

theorem joinClosed {separator : String} (isFixed : isFixedFrom false [] separator.toList)
    (each : ∀ text ∈ texts, Piece known .closed text) : Piece known .closed (Text.join separator texts) := by
  induction texts with
  | nil => exact empty
  | cons text texts ih =>
    rw [List.forall_mem_cons] at each
    cases texts with
    | nil => exact each.1
    | cons => exact (each.1.closed_append (.fixed isFixed)).closed_append (ih each.2)

theorem indentation (depth : Nat) : Piece known .closed (Printer.indentation depth) := by
  unfold Printer.indentation
  induction depth with
  | zero => exact empty
  | succ depth ih => exact closed_append (.fixed (by decide)) ih

theorem line (depth : Nat) (piece : Piece known ending text) : Piece known ending (Printer.line depth text) :=
  (indentation depth).closed_append piece

theorem inParentheses (piece : Piece known .number text) : Piece known ending ("(" ++ text ++ ")") :=
  (closed_append (.fixed (by decide)) piece).then_fixed (by decide) (by decide)

theorem signBefore {operator : UnaryOperator} (operand : Piece known ending text) :
    Piece known ending (Printer.signBefore operator.symbol text) := by
  have sign : Piece known .closed operator.symbol := .fixed (by cases operator <;> decide)
  have spaced : Piece known .closed (operator.symbol ++ " ") := sign.closed_append (.fixed (by decide))
  unfold Printer.signBefore
  split
  · split
    · exact spaced.closed_append operand
    · exact sign.closed_append operand
  · exact sign.closed_append operand

theorem symbol (operator : BinaryOperator) (notIndex : operator ≠ .index)
    (first : Piece known .number front) (second : Piece known ending text) :
    Piece known ending (front ++ " " ++ operator.symbol ++ " " ++ text) := by
  have slashed (sign : Mark) (opens : sign.opensOther) (ends : sign.endsBefore ' ') :
      Piece known ending (front ++ " " ++ sign.spelling ++ " " ++ text) := by
    have behind : Piece known ending (" " ++ text) := closed_append (.fixed (by decide)) second
    have marked : Piece known ending (sign.spelling ++ (" " ++ text)) := by
      refine .mark opens (fun rest character member => ?_) behind
      rw [String.toList_append, List.append_assoc] at member
      cases member
      exact ends
    have blank : Piece known .closed (front ++ " ") := first.then_fixed (by decide) (by decide)
    have all := blank.closed_append marked
    rwa [← String.append_assoc, ← String.append_assoc] at all
  have plain (isFixed : isFixedFrom false [] operator.symbol.toList) :
      Piece known ending (front ++ " " ++ operator.symbol ++ " " ++ text) := by
    have blank : Piece known .closed (front ++ " ") := first.then_fixed (by decide) (by decide)
    have sign : Piece known .closed (front ++ " " ++ operator.symbol) :=
      blank.closed_append (.fixed isFixed)
    exact (sign.closed_append (.fixed (by decide))).closed_append second
  cases operator with
  | div => exact slashed .slash rfl (by decide)
  | divAssign => exact slashed .slashEqual rfl (by decide)
  | index => exact absurd rfl notIndex
  | _ => exact plain (by decide)

theorem pointed {name : String} (spelled : (Lexeme.identifier name).isSpelled) (isKnown : known name) :
    Piece known .word ("." ++ name) := by
  have opens : Mark.dot.opensOther := rfl
  refine mark opens (fun rest character member => ?_) (.name spelled isKnown)
  have isWord := (Bool.and_eq_true_iff.mp spelled).1
  cases letters : name.toList with
  | nil =>
    rw [letters] at isWord
    cases isWord
  | cons first others =>
    rw [letters] at isWord member
    cases member
    have starts := (Bool.and_eq_true_iff.mp isWord).1
    apply Mark.endsBefore_of_not_mem
    · have none : (Mark.continuations .dot).all (!Lexer.isIdentifierStart ·) := by decide
      intro among
      have other := List.all_eq_true.mp none _ among
      rw [starts] at other
      cases other
    · decide
    · intro _
      by_contra digit
      rw [(Lexer.of_isDigit (Bool.not_eq_false _ ▸ digit)).1] at starts
      cases starts

theorem point {name : String} (object : Piece known .word front)
    (spelled : (Lexeme.identifier name).isSpelled) (isKnown : known name) :
    Piece known .word (front ++ "." ++ name) := by
  rw [String.append_assoc]
  refine object.append (pointed spelled isKnown) fun behind _ character member => ?_
  rw [String.toList_append, List.append_assoc] at member
  cases member
  decide

theorem ellipsis : Piece known ending "..." :=
  have opens : Mark.ellipsis.opensOther := rfl
  mark opens (fun _ _ _ => Mark.endsBefore_of_not_mem List.not_mem_nil nofun nofun) empty

end Piece

/-! ## Numbers -/

theorem Lexer.numberText_append_all {number others : List Char} (whole : numberText number = number)
    (all : others.all isNumberCharacter) : numberText (number ++ others) = number ++ others := by
  have own {others : List Char} (all : others.all isNumberCharacter) : numberText others = others := by
    induction others with
    | nil => rfl
    | cons first others ih =>
      obtain ⟨isNumber, rest⟩ := Bool.and_eq_true_iff.mp all
      cases others with
      | nil => simp [numberText, isNumber]
      | cons second others =>
        obtain ⟨more, -⟩ := Bool.and_eq_true_iff.mp rest
        have notSign : (second == '+' || second == '-') = false := by
          by_contra isSign
          rw [Bool.not_eq_false, Bool.or_eq_true, beq_iff_eq, beq_iff_eq] at isSign
          rcases isSign with rfl | rfl <;> exact absurd more (by decide)
        simp [numberText, isNumber, notSign, ih rest]
  induction number using numberText.induct with
  | case1 => exact own all
  | case2 character isNumber =>
    refine own ?_
    rw [List.singleton_append, List.all_cons, isNumber, all]
    rfl
  | case3 character notNumber => simp [numberText, notNumber] at whole
  | case4 character next rest notNumber => simp [numberText, notNumber] at whole
  | case5 character next rest isNumber sign ih =>
    rw [numberText, if_neg isNumber, if_pos sign] at whole
    rw [List.cons_append, List.cons_append, numberText, if_neg isNumber, if_pos sign,
      ih (by simpa using whole)]
  | case6 character next rest isNumber noSign ih =>
    rw [numberText, if_neg isNumber, if_neg noSign] at whole
    rw [List.cons_append, List.cons_append, numberText, if_neg isNumber, if_neg noSign,
      ← List.cons_append, ih (by simpa using whole)]

theorem Lexeme.isNumber_append {number others : List Char} (isNumber : Lexeme.isNumber number)
    (all : others.all Lexer.isNumberCharacter) : Lexeme.isNumber (number ++ '.' :: others) := by
  obtain ⟨first, rest, rfl, opens⟩ := Lexer.exists_of_isNumber isNumber
  simp only [Lexeme.isNumber, Bool.and_eq_true, beq_iff_eq, Bool.not_eq_true'] at isNumber
  have point : ('.' :: others).all Lexer.isNumberCharacter := by
    rw [List.all_cons, all]
    rfl
  have whole := Lexer.numberText_append_all isNumber.1.2 point
  simp only [Lexeme.isNumber, Bool.and_eq_true, beq_iff_eq, Bool.not_eq_true', Bool.and_eq_false_iff,
    List.cons_append]
  refine ⟨⟨?_, whole⟩, ?_⟩
  · rcases opens with digit | ⟨rfl, second⟩
    · rw [digit, Bool.true_or]
    · cases rest with
      | nil => cases second
      | cons next rest =>
        rw [Bool.or_eq_true]
        exact .inr second
  · -- Behind one character the point stands, which is no mark of a base.
    cases rest with
    | nil =>
      have lower : Char.toLower '.' = '.' := by decide
      right
      simp only [List.nil_append, List.map_cons, lower]
      simp [List.isPrefixOf]
    | cons next rest =>
      left
      simp

namespace Expr

def numeralText : Expr → String
  | .intLiteral _ spelling | .floatLiteral _ spelling => spelling
  | .member _ object name _ => object.numeralText ++ "." ++ name
  | _ => ""

/-- What an expression ends with in a place of a precedence: suffixes have no number in front that is
not meant to be one. -/
def ending (minimum : Nat) (value : Expr) : PieceEnd :=
  if value.isNumeral || minimum < Precedence.suffixed then .number else .word

variable {known : String → Prop} {value : Expr} {minimum precedence : Nat} {text : String}

theorem ending_eq (minimum : Nat) (value : Expr) :
    value.ending minimum = .number ∨ value.ending minimum = .word := by
  unfold ending
  split
  · exact .inl rfl
  · exact .inr rfl

theorem piece_of_word (piece : Piece known .word text) : Piece known (value.ending minimum) text := by
  rcases value.ending_eq minimum with same | same
  · rw [same]
    exact piece.toNumber
  · rwa [same]

theorem piece_parenthesized (isLoose : precedence < Precedence.suffixed) (piece : Piece known .number text) :
    Piece known (value.ending minimum) (parenthesized (precedence < minimum) text) := by
  unfold parenthesized
  split
  · exact piece.inParentheses
  · next fits =>
    have isLow : minimum < Precedence.suffixed :=
      Nat.lt_of_le_of_lt (Nat.le_of_not_lt (by simpa using fits)) isLoose
    have same : value.ending minimum = .number := by simp [ending, isLow]
    rwa [same]

theorem piece_suffixed {needed : Bool} (piece : Piece known .word text) :
    Piece known (value.ending minimum) (parenthesized needed text) := by
  unfold parenthesized
  split
  · exact piece.toNumber.inParentheses
  · exact piece_of_word piece

theorem isNumber_numeralText (value : Expr) (numeral : value.isNumeral)
    (spelled : AllSpelled known value.nodes) : Lexeme.isNumber value.numeralText.toList := by
  match value with
  | .intLiteral _ spelling | .floatLiteral _ spelling =>
    have own := (allSpelled_cons.mp spelled).1.spelled _ List.mem_cons_self
    exact (Bool.and_eq_true_iff.mp own).1
  | .member span object name true => cases numeral
  | .member span object name false =>
    obtain ⟨own, inner⟩ := allSpelled_cons.mp spelled
    have isNumeral : object.isNumeral := numeral
    have whole : name.toList.all Lexer.isNumberCharacter := by
      have cuts := own.whole
      rw [Node.cutsMember, isNumeral, Bool.true_and, Bool.not_eq_false'] at cuts
      exact cuts
    rw [numeralText, String.append_assoc, String.toList_append, String.toList_append]
    exact Lexeme.isNumber_append (object.isNumber_numeralText isNumeral inner) whole

theorem exprText_of_isNumeral (depth : Nat) (value : Expr) (numeral : value.isNumeral) :
    exprText depth Precedence.suffixed value = value.numeralText := by
  match value with
  | .intLiteral .. | .floatLiteral .. =>
    rw [exprText]
    rfl
  | .member span object name true => cases numeral
  | .member span object name false =>
    have isNumeral : object.isNumeral := numeral
    rw [exprText, object.exprText_of_isNumeral depth isNumeral]
    rfl

end Expr

/-! ## Expressions and types -/

def Initializer.ending (value : Initializer) : PieceEnd := if value.isList then .closed else .number

namespace Piece

variable {known : String → Prop} {text inner keyword : String}

theorem specifiersAnd {parts : String × String}
    (pieces : Piece known .word parts.1 ∧ Piece known .word parts.2) :
    Piece known .word (Printer.specifiersAnd parts) := by
  unfold Printer.specifiersAnd
  split
  · exact pieces.1
  · exact (pieces.1.toNumber.then_fixed (by decide) (by decide)).closed_append pieces.2

theorem qualifiers (qualifiers : Qualifiers) : Piece known .word qualifiers.text := by
  obtain ⟨isConst, isVolatile, isRestrict⟩ := qualifiers
  cases isConst <;> cases isVolatile <;> cases isRestrict <;> exact keywords (by decide)

theorem pointerText (own : Qualifiers) (piece : Piece known .word inner) :
    Piece known .word (Printer.pointerText own inner) := by
  have star : Piece known .closed "*" := fixed (by decide)
  have spaced : Piece known .closed ("*" ++ own.text ++ " ") :=
    (star.closed_append (qualifiers own)).toNumber.then_fixed (by decide) (by decide)
  unfold Printer.pointerText
  split
  · exact star.closed_append piece
  · split
    · exact star.closed_append (qualifiers own)
    · exact spaced.closed_append piece

theorem parenthesized {needed : Bool} (piece : Piece known .word text) :
    Piece known .word (Printer.parenthesized needed text) := by
  unfold Printer.parenthesized
  split
  · exact piece.toNumber.inParentheses
  · exact piece

theorem tagText {tag : Option String} (isFixed : isFixedFrom true [] keyword.toList)
    (named : ∀ name ∈ tag, Piece known .word name) : Piece known .word (Printer.tagText keyword tag) := by
  cases tag with
  | none => exact keywords isFixed
  | some name =>
    have blank : Piece known .closed (keyword ++ " ") :=
      (keywords isFixed).toNumber.then_fixed (by decide) (by decide)
    exact blank.closed_append (named name rfl)

theorem qualifiedSpecifier (pending : Option Qualifiers) (piece : Piece known .word text) :
    Piece known .word (Printer.qualifiedSpecifier pending text) := by
  cases pending with
  | none => exact piece
  | some own =>
    have blank : Piece known .closed (own.text ++ " ") :=
      (qualifiers own).toNumber.then_fixed (by decide) (by decide)
    exact blank.closed_append piece

theorem bodyText (depth : Nat) {entries : List String} (tagged : Piece known .word text)
    (each : ∀ entry ∈ entries, Piece known .number entry) :
    Piece known .word (text ++ Printer.bodyText depth entries) := by
  have lines : ∀ line ∈ entries.map fun entry => Printer.indentation (depth + 1) ++ entry ++ "\n",
      Piece known .closed line :=
    List.forall_mem_map.mpr fun entry member =>
      ((indentation _).closed_append (each entry member)).then_fixed (by decide) (by decide)
  have opened : Piece known .closed (text ++ " \x7b\n") :=
    tagged.toNumber.then_fixed (by decide) (by decide)
  have closing : Piece known .word "\x7d" := fixed (by decide)
  have body := ((opened.closed_append (joined lines)).closed_append (indentation depth)).closed_append closing
  unfold Printer.bodyText
  rwa [← String.append_assoc, ← String.append_assoc, ← String.append_assoc]

theorem withCommas {entries : List String} (each : ∀ entry ∈ entries, Piece known .number entry) :
    ∀ entry ∈ Printer.withCommas entries, Piece known .number entry := by
  induction entries with
  | nil => exact nofun
  | cons entry entries ih =>
    rw [List.forall_mem_cons] at each
    cases entries with
    | nil => exact List.forall_mem_singleton.mpr each.1
    | cons =>
      exact List.forall_mem_cons.mpr ⟨each.1.then_fixed (by decide) (by decide), ih each.2⟩

end Piece

theorem stops_designatorsText (depth : Nat) (designators : List Designator) {behind : List Char}
    (stops : PieceEnd.word.Stops behind) :
    PieceEnd.word.Stops ((designatorsText depth designators).toList ++ behind) := by
  intro character member
  match designators with
  | [] =>
    rw [designatorsText] at member
    exact stops character member
  | .index index :: rest =>
    rw [designatorsText, String.append_assoc, String.append_assoc, String.toList_append] at member
    cases member
    decide
  | .member name :: rest =>
    rw [designatorsText, String.append_assoc, String.toList_append] at member
    cases member
    decide

open Expr (piece_of_word piece_parenthesized piece_suffixed)

mutual

theorem Expr.piece_exprText {known : String → Prop} (depth minimum : Nat) : ∀ value : Expr,
    AllSpelled known value.nodes → Piece known (value.ending minimum) (exprText depth minimum value)
  | .intLiteral span spelling, spelled | .floatLiteral span spelling, spelled => by
    have own := (allSpelled_cons.mp spelled).1.spelled _ List.mem_cons_self
    rw [exprText]
    exact .ofNumber (Bool.and_eq_true_iff.mp own).1
  | .charLiteral span spelling, spelled => by
    rw [exprText]
    exact .character ((allSpelled_cons.mp spelled).1.spelled _ List.mem_cons_self)
  | .stringLiteral span pieces, spelled => by
    have own := (allSpelled_cons.mp spelled).1.spelled
    have each : ∀ piece ∈ pieces, Piece known .closed piece := fun piece member =>
      .string (own _ (List.mem_map_of_mem member))
    rw [exprText]
    exact .ofClosed (.joinClosed (by decide) each)
  | .identifier span name, spelled => by
    rw [exprText]
    exact piece_of_word ((allSpelled_cons.mp spelled).1.piece List.mem_cons_self)
  | .binary span operator left right, spelled => by
    obtain ⟨first, second⟩ := allSpelled_append.mp (allSpelled_cons.mp spelled).2
    have first (minimum : Nat) := (left.piece_exprText depth minimum first).toNumber
    have second (minimum : Nat) := (right.piece_exprText depth minimum second).toNumber
    rw [exprText]
    split
    · next isIndex =>
      have bracket : Piece known .closed (_ ++ "[") :=
        (first Precedence.suffixed).then_fixed (by decide) (by decide)
      exact piece_suffixed ((bracket.closed_append (second 0)).then_fixed (by decide) (by decide))
    · next notIndex =>
      split
      · exact piece_parenthesized (by decide) (.symbol operator notIndex (first _) (second _))
      · refine piece_parenthesized ?_ (.symbol operator notIndex (first _) (second _))
        cases operator <;> first | decide | exact absurd rfl notIndex
  | .unary span operator operand, spelled => by
    have inner (minimum : Nat) :=
      (operand.piece_exprText depth minimum (allSpelled_cons.mp spelled).2).toNumber
    rw [exprText]
    split
    · next follows =>
      refine piece_suffixed ((inner _).then_fixed ?_ ?_)
      all_goals cases operator <;> first | decide | cases follows
    · exact piece_parenthesized (by decide) (.signBefore (inner _))
  | .call span function arguments, spelled => by
    obtain ⟨callee, given⟩ := allSpelled_append.mp (allSpelled_cons.mp spelled).2
    have callee := (function.piece_exprText depth Precedence.suffixed callee).toNumber
    have given := Piece.joinCommas (Expr.piece_exprTexts depth arguments given)
    rw [exprText]
    have bracket : Piece known .closed (_ ++ "(") := callee.then_fixed (by decide) (by decide)
    exact piece_suffixed ((bracket.closed_append given).then_fixed (by decide) (by decide))
  | .member span object name true, spelled => by
    obtain ⟨own, inner⟩ := allSpelled_cons.mp spelled
    have object := (object.piece_exprText depth Precedence.suffixed inner).toNumber
    rw [exprText]
    have arrow : Piece known .closed (_ ++ "->") := object.then_fixed (by decide) (by decide)
    exact piece_suffixed (arrow.closed_append (own.piece List.mem_cons_self))
  | .member span object name false, spelled => by
    obtain ⟨own, inner⟩ := allSpelled_cons.mp spelled
    have inner := object.piece_exprText depth Precedence.suffixed inner
    cases numeral : object.isNumeral with
    | true =>
      have isNumeral : (Expr.member span object name false).isNumeral := numeral
      have number := Expr.isNumber_numeralText _ isNumeral spelled
      have same : (Expr.member span object name false).ending minimum = .number := by
        rw [Expr.ending, isNumeral]
        rfl
      rw [exprText, object.exprText_of_isNumeral depth numeral, same]
      have piece : Piece known .number (object.numeralText ++ "." ++ name) := .ofNumber number
      unfold Printer.parenthesized
      split
      · exact piece.inParentheses
      · exact piece
    | false =>
      have same : object.ending Precedence.suffixed = .word := by simp [Expr.ending, numeral]
      have isName : Lexeme.identifier name ∈ (Node.expression (.member span object name false)).lexemes :=
        List.mem_cons_self
      rw [same] at inner
      rw [exprText]
      exact piece_suffixed (inner.point (own.spelled _ isName) (own.known name isName))
  | .conditional span condition thenValue elseValue, spelled => by
    obtain ⟨front, last⟩ := allSpelled_append.mp (allSpelled_cons.mp spelled).2
    obtain ⟨first, second⟩ := allSpelled_append.mp front
    have first := (condition.piece_exprText depth Precedence.logicalOr first).toNumber
    have second := (thenValue.piece_exprText depth 0 second).toNumber
    have last := (elseValue.piece_exprText depth Precedence.conditional last).toNumber
    rw [exprText]
    have question : Piece known .closed (_ ++ " ? ") := first.then_fixed (by decide) (by decide)
    have colon : Piece known .closed (_ ++ " : ") :=
      (question.closed_append second).then_fixed (by decide) (by decide)
    exact piece_parenthesized (by decide) (colon.closed_append last)
  | .cast span target operand, spelled => by
    obtain ⟨type, inner⟩ := allSpelled_append.mp (allSpelled_cons.mp spelled).2
    have type := Piece.specifiersAnd (target.piece_parts depth none .empty type)
    have inner := (operand.piece_exprText depth Precedence.unary inner).toNumber
    rw [exprText]
    have opened := (Piece.fixed (by decide) : Piece known .closed "(").closed_append type
    have closed : Piece known .closed (_ ++ ") ") := opened.toNumber.then_fixed (by decide) (by decide)
    exact piece_parenthesized (by decide) (closed.closed_append inner)
  | .sizeofExpr span operand, spelled => by
    have inner := (operand.piece_exprText depth 0 (allSpelled_cons.mp spelled).2).toNumber
    rw [exprText]
    have opened := (Piece.fixed (by decide) : Piece known .closed "sizeof(").closed_append inner
    exact piece_parenthesized (by decide) (opened.then_fixed (by decide) (by decide))
  | .sizeofType span type, spelled => by
    have type := Piece.specifiersAnd (type.piece_parts depth none .empty (allSpelled_cons.mp spelled).2)
    rw [exprText]
    have opened := (Piece.fixed (by decide) : Piece known .closed "sizeof(").closed_append type
    exact piece_parenthesized (by decide) (opened.toNumber.then_fixed (by decide) (by decide))
  | .compoundLiteral span type initializer, spelled => by
    obtain ⟨own, parts⟩ := allSpelled_cons.mp spelled
    obtain ⟨first, second⟩ := allSpelled_append.mp parts
    have type := Piece.specifiersAnd (type.piece_parts depth none .empty first)
    have list := initializer.piece_initializerText depth second
    rw [Initializer.ending, if_pos (own.list _ _ _ rfl)] at list
    rw [exprText]
    have opened := (Piece.fixed (by decide) : Piece known .closed "(").closed_append type
    have closed : Piece known .closed (_ ++ ")") :=
      opened.toNumber.then_fixed (by decide) (by decide)
    exact piece_suffixed (closed.closed_append list.ofClosed)
  | .comma span parts, spelled => by
    rw [exprText]
    exact piece_parenthesized (by decide) (.join (by decide) (by decide)
      (Expr.piece_exprTexts depth parts (allSpelled_cons.mp spelled).2))
  | .typeArgument span type, spelled => by
    rw [exprText]
    exact piece_of_word (.specifiersAnd (type.piece_parts depth none .empty (allSpelled_cons.mp spelled).2))

theorem Expr.piece_exprTexts {known : String → Prop} (depth : Nat) : ∀ values : List Expr,
    AllSpelled known (Expr.listNodes values) → ∀ text ∈ exprTexts depth values, Piece known .number text
  | [], _ => nofun
  | value :: values, spelled => by
    obtain ⟨first, rest⟩ := allSpelled_append.mp spelled
    rw [exprTexts]
    exact List.forall_mem_cons.mpr
      ⟨(value.piece_exprText depth _ first).toNumber, Expr.piece_exprTexts depth values rest⟩

theorem Initializer.piece_initializerText {known : String → Prop} (depth : Nat) : ∀ value : Initializer,
    AllSpelled known value.nodes → Piece known value.ending (initializerText depth value)
  | .expression span value, spelled => by
    rw [initializerText]
    exact (value.piece_exprText depth _ (allSpelled_cons.mp spelled).2).toNumber
  | .list span [], _ => by
    rw [initializerText]
    exact .fixed (by decide)
  | .list span (item :: items), spelled => by
    have each := Initializer.piece_initializerTexts depth (item :: items) (allSpelled_cons.mp spelled).2
    have all := (Piece.fixed (by decide) : Piece known .closed "\x7b ").closed_append
      (.joinCommas each)
    rw [initializerText]
    · exact all.then_fixed (by decide) (by decide)
    · exact nofun
  | .designated span designators value, spelled => by
    obtain ⟨own, parts⟩ := allSpelled_cons.mp spelled
    obtain ⟨first, second⟩ := allSpelled_append.mp parts
    have chain := Designator.piece_designatorsText depth designators (fun name member =>
      ⟨own.spelled _ (List.mem_filterMap.mpr ⟨.member name, member, rfl⟩),
        own.known name (List.mem_filterMap.mpr ⟨.member name, member, rfl⟩)⟩) first
    have equals : Piece known .closed (_ ++ " = ") :=
      chain.toNumber.then_fixed (by decide) (by decide)
    rw [initializerText]
    exact equals.closed_append (value.piece_initializerText depth second).toNumber

theorem Initializer.piece_initializerTexts {known : String → Prop} (depth : Nat) :
    ∀ values : List Initializer, AllSpelled known (Initializer.listNodes values) →
      ∀ text ∈ initializerTexts depth values, Piece known .number text
  | [], _ => nofun
  | value :: values, spelled => by
    obtain ⟨first, rest⟩ := allSpelled_append.mp spelled
    rw [initializerTexts]
    exact List.forall_mem_cons.mpr ⟨(value.piece_initializerText depth first).toNumber,
      Initializer.piece_initializerTexts depth values rest⟩

theorem Designator.piece_designatorsText {known : String → Prop} (depth : Nat) :
    ∀ designators : List Designator,
      (∀ name, .member name ∈ designators → (Lexeme.identifier name).isSpelled ∧ known name) →
      AllSpelled known (Designator.listNodes designators) →
      Piece known .word (designatorsText depth designators)
  | [], _, _ => by
    rw [designatorsText]
    exact .empty
  | .index index :: rest, own, spelled => by
    obtain ⟨first, others⟩ := allSpelled_append.mp spelled
    have inner := (index.piece_exprText depth 0 first).toNumber
    have others := Designator.piece_designatorsText depth rest
      (fun name member => own name (List.mem_cons_of_mem _ member)) others
    rw [designatorsText]
    have opened := (Piece.fixed (by decide) : Piece known .closed "[").closed_append inner
    have closed : Piece known .closed (_ ++ "]") := opened.then_fixed (by decide) (by decide)
    exact closed.closed_append others
  | .member name :: rest, own, spelled => by
    obtain ⟨isName, isKnown⟩ := own name List.mem_cons_self
    have others := Designator.piece_designatorsText depth rest
      (fun name member => own name (List.mem_cons_of_mem _ member)) spelled
    rw [designatorsText]
    exact (Piece.pointed isName isKnown).append others fun _ => stops_designatorsText depth rest

theorem CType.piece_parts {known : String → Prop} (depth : Nat) : ∀ (type : CType)
    (pending : Option Qualifiers) {inner : String}, Piece known .word inner → AllSpelled known type.nodes →
      Piece known .word (declaratorParts depth pending inner type).1 ∧
        Piece known .word (declaratorParts depth pending inner type).2
  | .pointer own target, pending, inner, around, spelled => by
    rw [declaratorParts]
    exact target.piece_parts depth none (.parenthesized (.pointerText _ around))
      (allSpelled_cons.mp spelled).2
  | .array element none, pending, inner, around, spelled => by
    rw [declaratorParts]
    exact element.piece_parts depth pending (around.toNumber.then_fixed (by decide) (by decide))
      (allSpelled_cons.mp spelled).2
  | .array element (some size), pending, inner, around, spelled => by
    obtain ⟨first, second⟩ := allSpelled_append.mp (allSpelled_cons.mp spelled).2
    have bracket : Piece known .closed (_ ++ "[") :=
      around.toNumber.then_fixed (by decide) (by decide)
    have sized := bracket.closed_append (size.piece_exprText depth 0 second).toNumber
    rw [declaratorParts]
    exact element.piece_parts depth pending (sized.then_fixed (by decide) (by decide)) first
  | .function result parameters isVariadic, pending, inner, around, spelled => by
    obtain ⟨own, parts⟩ := allSpelled_cons.mp spelled
    obtain ⟨first, second⟩ := allSpelled_append.mp parts
    have texts : ∀ text ∈ parameterTexts depth parameters ++ (if isVariadic then ["..."] else []),
        Piece known .number text := by
      refine List.forall_mem_append.mpr ⟨Parameter.piece_parameterTexts depth parameters (fun name member =>
          own.piece (List.mem_map_of_mem member)) second, ?_⟩
      cases isVariadic
      · exact nofun
      · exact List.forall_mem_singleton.mpr .ellipsis
    have bracket : Piece known .closed (_ ++ "(") :=
      around.toNumber.then_fixed (by decide) (by decide)
    have listed := bracket.closed_append (.joinCommas texts)
    rw [declaratorParts]
    exact result.piece_parts depth none (listed.then_fixed (by decide) (by decide)) first
  | .qualified qualifiers type, pending, inner, around, spelled => by
    rw [declaratorParts]
    exact type.piece_parts depth (some qualifiers) around (allSpelled_cons.mp spelled).2
  | .basic kind, pending, inner, around, _ => by
    rw [declaratorParts]
    exact ⟨.qualifiedSpecifier pending (.keywords (by cases kind <;> decide)), around⟩
  | .named name, pending, inner, around, spelled => by
    rw [declaratorParts]
    exact ⟨.qualifiedSpecifier pending ((allSpelled_cons.mp spelled).1.piece List.mem_cons_self), around⟩
  | .record kind tag none, pending, inner, around, spelled => by
    have own := (allSpelled_cons.mp spelled).1
    rw [declaratorParts]
    exact ⟨.qualifiedSpecifier pending (.tagText (by cases kind <;> decide) fun name isTag =>
      own.piece (List.mem_map_of_mem (List.mem_append_left _ (Option.mem_toList.mpr isTag)))), around⟩
  | .record kind tag (some fields), pending, inner, around, spelled => by
    obtain ⟨own, parts⟩ := allSpelled_cons.mp spelled
    have tagged : Piece known .word (tagText kind.keyword tag) :=
      .tagText (by cases kind <;> decide) fun name isTag =>
        own.piece (List.mem_map_of_mem (List.mem_append_left _ (Option.mem_toList.mpr isTag)))
    rw [declaratorParts]
    exact ⟨.qualifiedSpecifier pending (.bodyText depth tagged (Field.piece_fieldTexts (depth + 1) fields
      (fun name member => own.piece (List.mem_map_of_mem (List.mem_append_right _ member))) parts)), around⟩
  | .enumeration tag none, pending, inner, around, spelled => by
    have own := (allSpelled_cons.mp spelled).1
    rw [declaratorParts]
    exact ⟨.qualifiedSpecifier pending (.tagText (by decide) fun name isTag =>
      own.piece (List.mem_map_of_mem (List.mem_append_left _ (Option.mem_toList.mpr isTag)))), around⟩
  | .enumeration tag (some enumerators), pending, inner, around, spelled => by
    obtain ⟨own, parts⟩ := allSpelled_cons.mp spelled
    have tagged : Piece known .word (tagText "enum" tag) := .tagText (by decide) fun name isTag =>
      own.piece (List.mem_map_of_mem (List.mem_append_left _ (Option.mem_toList.mpr isTag)))
    rw [declaratorParts]
    exact ⟨.qualifiedSpecifier pending (.bodyText depth tagged (.withCommas
      (Enumerator.piece_enumeratorTexts depth enumerators (fun name member =>
        own.piece (List.mem_map_of_mem (List.mem_append_right _ member))) parts))), around⟩

theorem Parameter.piece_parameterTexts {known : String → Prop} (depth : Nat) : ∀ parameters : List Parameter,
      (∀ name ∈ parameters.filterMap Parameter.name, Piece known .word name) →
      AllSpelled known (Parameter.listNodes parameters) →
      ∀ text ∈ parameterTexts depth parameters, Piece known .number text
  | [], _, _ => nofun
  | ⟨name, type, span⟩ :: rest, names, spelled => by
    obtain ⟨first, others⟩ := allSpelled_append.mp spelled
    have named : Piece known .word (name.getD "") := by
      cases name with
      | none => exact .empty
      | some name => exact names name List.mem_cons_self
    have more : ∀ name ∈ rest.filterMap Parameter.name, Piece known .word name := fun other member =>
      names other ((List.sublist_cons_self _ rest).filterMap Parameter.name |>.mem member)
    rw [parameterTexts]
    exact List.forall_mem_cons.mpr ⟨(Piece.specifiersAnd (type.piece_parts depth none named first)).toNumber,
        Parameter.piece_parameterTexts depth rest more others⟩

theorem Field.piece_fieldTexts {known : String → Prop} (depth : Nat) : ∀ fields : List Field,
    (∀ name ∈ fields.filterMap Field.name, Piece known .word name) →
    AllSpelled known (Field.listNodes fields) → ∀ text ∈ fieldTexts depth fields, Piece known .number text
  | [], _, _ => nofun
  | ⟨name, type, width⟩ :: rest, names, spelled => by
    have named : Piece known .word (name.getD "") := by
      cases name with
      | none => exact .empty
      | some name => exact names name List.mem_cons_self
    have more : ∀ name ∈ rest.filterMap Field.name, Piece known .word name := fun other member =>
      names other ((List.sublist_cons_self _ rest).filterMap Field.name |>.mem member)
    cases width with
    | none =>
      obtain ⟨first, others⟩ := allSpelled_append.mp spelled
      have declared := Piece.specifiersAnd (type.piece_parts depth none named first)
      rw [fieldTexts]
      exact List.forall_mem_cons.mpr ⟨declared.toNumber.then_fixed (by decide) (by decide),
        Field.piece_fieldTexts depth rest more others⟩
    | some width =>
      obtain ⟨front, others⟩ := allSpelled_append.mp spelled
      obtain ⟨first, second⟩ := allSpelled_append.mp front
      have declared := Piece.specifiersAnd (type.piece_parts depth none named first)
      have colon : Piece known .closed (_ ++ " : ") :=
        declared.toNumber.then_fixed (by decide) (by decide)
      have wide := colon.closed_append (width.piece_exprText depth Precedence.conditional second).toNumber
      rw [fieldTexts]
      exact List.forall_mem_cons.mpr ⟨wide.then_fixed (by decide) (by decide),
        Field.piece_fieldTexts depth rest more others⟩

theorem Enumerator.piece_enumeratorTexts {known : String → Prop} (depth : Nat) :
    ∀ enumerators : List Enumerator, (∀ name ∈ enumerators.map Enumerator.name, Piece known .word name) →
      AllSpelled known (Enumerator.listNodes enumerators) →
      ∀ text ∈ enumeratorTexts depth enumerators, Piece known .number text
  | [], _, _ => nofun
  | ⟨name, none⟩ :: rest, names, spelled => by
    rw [List.map_cons, List.forall_mem_cons] at names
    rw [enumeratorTexts]
    exact List.forall_mem_cons.mpr
      ⟨names.1.toNumber, Enumerator.piece_enumeratorTexts depth rest names.2 spelled⟩
  | ⟨name, some value⟩ :: rest, names, spelled => by
    rw [List.map_cons, List.forall_mem_cons] at names
    obtain ⟨first, others⟩ := allSpelled_append.mp spelled
    have equals : Piece known .closed (_ ++ " = ") :=
      names.1.toNumber.then_fixed (by decide) (by decide)
    rw [enumeratorTexts]
    exact List.forall_mem_cons.mpr
      ⟨equals.closed_append (value.piece_exprText depth Precedence.conditional first).toNumber,
        Enumerator.piece_enumeratorTexts depth rest names.2 others⟩

end

/-!
## The words of a printed unit

Statements print as lines, and words end with their lines at the latest. So in the text of a unit all
words are names of the unit or keywords.
-/

open Printer
open Node (AllSpelled allSpelled_cons allSpelled_append)

/-! ### Statements -/

section Statements

variable {known : String → Prop}

theorem CType.piece_declaratorText (depth : Nat) (type : CType) {name : String}
    (named : Piece known .word name) (spelled : AllSpelled known type.nodes) :
    Piece known .word (declaratorText depth type name) :=
  .specifiersAnd (type.piece_parts depth none named spelled)

theorem Initializer.piece_initialValueText (depth : Nat) (value : Option Initializer)
    (spelled : AllSpelled known (optionalNodes Initializer.nodes value)) {text : String}
    (front : Piece known .word text) : Piece known .number (text ++ initialValueText depth value) := by
  cases value with
  | none => exact (front.append .empty fun _ stops => stops).toNumber
  | some value =>
    have equals : Piece known .closed (_ ++ " = ") :=
      front.toNumber.then_fixed (by decide) (by decide)
    have all := equals.closed_append (value.piece_initializerText depth spelled).toNumber
    rwa [String.append_assoc] at all

theorem piece_storageText (storage : Option StorageClass) : Piece known .closed (storageText storage) := by
  cases storage with
  | none => exact .empty
  | some storage => cases storage <;> exact .fixed (by decide)

theorem piece_inlineText (isInline : Bool) : Piece known .closed (inlineText isInline) := by
  cases isInline <;> exact .fixed (by decide)

theorem Declaration.piece_declarationText (depth : Nat) (declaration : Declaration)
    (spelled : AllSpelled known declaration.nodes) :
    Piece known .closed (declarationText depth declaration) := by
  obtain ⟨own, parts⟩ := allSpelled_cons.mp spelled
  obtain ⟨type, value⟩ := allSpelled_append.mp parts
  have declared := declaration.type.piece_declaratorText depth (own.piece List.mem_cons_self) type
  have front := ((piece_storageText declaration.storage).closed_append
    (piece_inlineText declaration.isInline)).closed_append declared
  exact (Initializer.piece_initialValueText depth _ value front).then_fixed (by decide) (by decide)

theorem piece_loopDeclarationTexts (depth : Nat) (declarations : List Declaration)
    (each : ∀ declaration ∈ declarations, AllSpelled known declaration.nodes) :
    ∀ text ∈ loopDeclarationTexts depth declarations, Piece known .number text := by
  cases declarations with
  | nil => exact nofun
  | cons first others =>
    have named (declaration : Declaration) (spelled : AllSpelled known declaration.nodes) :
        Piece known .word declaration.name := (allSpelled_cons.mp spelled).1.piece List.mem_cons_self
    have parts (declaration : Declaration) (spelled : AllSpelled known declaration.nodes) :=
      allSpelled_append.mp (allSpelled_cons.mp spelled).2
    rw [List.forall_mem_cons] at each
    rw [loopDeclarationTexts, List.forall_mem_cons, List.forall_mem_map]
    constructor
    · have declared := first.type.piece_declaratorText depth (named _ each.1) (parts _ each.1).1
      exact Initializer.piece_initialValueText depth _ (parts _ each.1).2
        ((piece_storageText first.storage).closed_append declared)
    · intro other member
      have spelled := each.2 other member
      exact Initializer.piece_initialValueText depth _ (parts _ spelled).2
        (other.type.piece_parts depth none (named _ spelled) (parts _ spelled).1).2

theorem piece_loopInitText (depth : Nat) (init : Option Statement)
    (spelled : AllSpelled known (Statement.optionNodes init)) :
    Piece known .closed (loopInitText depth init) := by
  unfold loopInitText
  split
  · next span declarations =>
    have each : ∀ declaration ∈ declarations, AllSpelled known declaration.nodes :=
      fun declaration member node inside =>
        (allSpelled_cons.mp spelled).2 node (List.mem_flatMap.mpr ⟨declaration, member, inside⟩)
    have joined := Piece.joinCommas (piece_loopDeclarationTexts depth declarations each)
    exact joined.then_fixed (by decide) (by decide)
  · next span value =>
    have value := (value.piece_exprText depth 0 (allSpelled_cons.mp spelled).2).toNumber
    exact value.then_fixed (by decide) (by decide)
  · exact .fixed (by decide)

theorem piece_loopPartText (depth : Nat) (value : Option Expr)
    (spelled : AllSpelled known (optionalNodes Expr.nodes value)) :
    Piece known .number (loopPartText depth value) := by
  cases value with
  | none => exact .empty
  | some value =>
    exact Piece.closed_append (.fixed (by decide)) (value.piece_exprText depth 0 spelled).toNumber

theorem piece_statementsLines {statements : List Statement} (depth : Nat)
    (each : ∀ statement ∈ statements, ∀ depth lead, Piece known .closed lead →
      AllSpelled known statement.nodes → ∀ text ∈ statementLines depth lead statement, Piece known .word text)
    (spelled : AllSpelled known (Statement.listNodes statements)) :
    ∀ text ∈ statementsLines depth statements, Piece known .word text := by
  induction statements with
  | nil => exact nofun
  | cons statement statements ih =>
    rw [List.forall_mem_cons] at each
    obtain ⟨first, rest⟩ := allSpelled_append.mp spelled
    rw [statementsLines]
    exact List.forall_mem_append.mpr ⟨each.1 depth "" .empty first, ih each.2 rest⟩

theorem Statement.piece_statementLines (statement : Statement) :
    ∀ depth lead, Piece known .closed lead → AllSpelled known statement.nodes →
      ∀ text ∈ statementLines depth lead statement, Piece known .word text := by
  have headed {front tail : String} {value : Expr} (depth minimum : Nat) (lead : Piece known .closed front)
      (spelled : AllSpelled known value.nodes) (isFixed : isFixedFrom false [] tail.toList)
      (parts : PieceEnd.number.parts tail) :
      Piece known .word (line depth (front ++ exprText depth minimum value ++ tail)) := by
    have value := (value.piece_exprText depth minimum spelled).toNumber
    exact .line depth ((lead.closed_append value).then_fixed isFixed parts)
  have labelled {label : String} {tail : String} (depth : Nat) (named : Piece known .word label)
      (isFixed : isFixedFrom false [] tail.toList) (parts : PieceEnd.number.parts tail) :
      Piece known .word (line depth (label ++ tail)) :=
    .line depth (named.toNumber.then_fixed isFixed parts)
  induction statement with
  | expression span value =>
    intro depth lead leads spelled
    have value := (value.piece_exprText depth 0 (allSpelled_cons.mp spelled).2).toNumber
    exact List.forall_mem_singleton.mpr (.line depth (value.then_fixed (by decide) (by decide)))
  | block span statements ih =>
    intro depth lead leads spelled
    rw [statementLines, List.forall_mem_cons, List.forall_mem_append, List.forall_mem_singleton]
    exact ⟨.line depth (.fixed (by decide)),
      piece_statementsLines _ ih (allSpelled_cons.mp spelled).2, .line depth (.fixed (by decide))⟩
  | declaration span declarations =>
    intro depth lead leads spelled
    refine List.forall_mem_map.mpr fun declaration member => .line depth (.ofClosed
      (declaration.piece_declarationText depth fun node inside => ?_))
    exact (allSpelled_cons.mp spelled).2 node (List.mem_flatMap.mpr ⟨declaration, member, inside⟩)
  | typeDefinition span type =>
    intro depth lead leads spelled
    have type := type.piece_declaratorText depth .empty (allSpelled_cons.mp spelled).2
    exact List.forall_mem_singleton.mpr
      (.line depth (type.toNumber.then_fixed (by decide) (by decide)))
  | ifThen span condition thenBranch ih =>
    intro depth lead leads spelled
    obtain ⟨front, -⟩ := allSpelled_append.mp (allSpelled_cons.mp spelled).2
    obtain ⟨first, second⟩ := allSpelled_append.mp front
    rw [statementLines, List.forall_mem_cons]
    exact ⟨headed depth 0 (leads.closed_append (.fixed (by decide))) first (by decide) (by decide),
      ih _ _ .empty second⟩
  | ifElse span condition thenBranch elseBranch thenIh elseIh =>
    intro depth lead leads spelled
    obtain ⟨front, last⟩ := allSpelled_append.mp (allSpelled_cons.mp spelled).2
    obtain ⟨first, second⟩ := allSpelled_append.mp front
    rw [statementLines, List.forall_mem_cons, List.forall_mem_append]
    refine ⟨headed depth 0 (leads.closed_append (.fixed (by decide))) first (by decide) (by decide),
      thenIh _ _ .empty second, ?_⟩
    split
    · exact elseIh _ _ (.fixed (by decide)) last
    · exact List.forall_mem_cons.mpr
        ⟨.line depth (.keywords (by decide)), elseIh _ _ .empty last⟩
  | whileLoop span condition body ih | switch span condition body ih =>
    intro depth lead leads spelled
    obtain ⟨first, second⟩ := allSpelled_append.mp (allSpelled_cons.mp spelled).2
    rw [statementLines, List.forall_mem_cons]
    exact ⟨headed depth 0 (.fixed (by decide)) first (by decide) (by decide), ih _ _ .empty second⟩
  | bareLoop span condition update body ih | forLoop span init condition update body _ ih =>
    intro depth lead leads spelled
    obtain ⟨front, last⟩ := allSpelled_append.mp (allSpelled_cons.mp spelled).2
    obtain ⟨front, third⟩ := allSpelled_append.mp front
    obtain ⟨first, second⟩ := allSpelled_append.mp front
    have start := (Piece.fixed (by decide) : Piece known .closed "for (").closed_append
      (piece_loopInitText depth _ first)
    have middle : Piece known .closed (_ ++ ";") :=
      (start.closed_append (piece_loopPartText depth condition second)).then_fixed (by decide) (by decide)
    have stop := middle.closed_append (piece_loopPartText depth update third)
    rw [statementLines, List.forall_mem_cons]
    exact ⟨.line depth (stop.then_fixed (by decide) (by decide)), ih _ _ .empty last⟩
  | doWhile span body condition ih =>
    intro depth lead leads spelled
    obtain ⟨first, second⟩ := allSpelled_append.mp (allSpelled_cons.mp spelled).2
    rw [statementLines, List.forall_mem_cons, List.forall_mem_append, List.forall_mem_singleton]
    exact ⟨.line depth (.keywords (by decide)), ih _ _ .empty first,
      headed depth 0 (.fixed (by decide)) second (by decide) (by decide)⟩
  | caseLabel span value statement ih =>
    intro depth lead leads spelled
    obtain ⟨first, second⟩ := allSpelled_append.mp (allSpelled_cons.mp spelled).2
    rw [statementLines, List.forall_mem_cons]
    exact ⟨headed depth _ (.fixed (by decide)) first (by decide) (by decide), ih _ _ .empty second⟩
  | defaultLabel span statement ih =>
    intro depth lead leads spelled
    rw [statementLines, List.forall_mem_cons]
    exact ⟨.line depth (.fixed (by decide)), ih _ _ .empty (allSpelled_cons.mp spelled).2⟩
  | breakStatement | continueStatement | empty =>
    intro depth lead leads spelled
    exact List.forall_mem_singleton.mpr (.line depth (.fixed (by decide)))
  | returnStatement span value =>
    intro depth lead leads spelled
    cases value with
    | none => exact List.forall_mem_singleton.mpr (.line depth (.fixed (by decide)))
    | some value =>
      exact List.forall_mem_singleton.mpr
        (headed depth 0 (.fixed (by decide)) (allSpelled_cons.mp spelled).2 (by decide) (by decide))
  | gotoStatement span label =>
    intro depth lead leads spelled
    have named : Piece known .word label := (allSpelled_cons.mp spelled).1.piece List.mem_cons_self
    have front := (Piece.fixed (by decide) : Piece known .closed "goto ").closed_append named
    exact List.forall_mem_singleton.mpr
      (.line depth (front.toNumber.then_fixed (by decide) (by decide)))
  | labelled span label statement ih =>
    intro depth lead leads spelled
    obtain ⟨own, inner⟩ := allSpelled_cons.mp spelled
    have named : Piece known .word label := own.piece List.mem_cons_self
    rw [statementLines]
    split
    · exact List.forall_mem_singleton.mpr (labelled depth named (by decide) (by decide))
    · exact List.forall_mem_cons.mpr
        ⟨labelled depth named (by decide) (by decide), ih _ _ .empty inner⟩

/-! ### Units -/

theorem piece_unlines {lines : List String} (each : ∀ text ∈ lines, Piece known .word text) :
    Piece known .closed (unlines lines) :=
  .joined (List.forall_mem_map.mpr fun text member =>
    (each text member).toNumber.then_fixed (by decide) (by decide))

theorem Function.piece_text (function : Function) (spelled : AllSpelled known function.nodes) :
    Piece known .closed function.text := by
  obtain ⟨own, parts⟩ := allSpelled_cons.mp spelled
  obtain ⟨header, body⟩ := allSpelled_append.mp parts
  have inside {kind : Lexeme}
      (among : kind ∈ (Node.type function.type).lexemes) : kind ∈ (Node.function function).lexemes := by
    obtain ⟨name, member, rfl⟩ := List.mem_map.mp among
    exact List.mem_map_of_mem (List.mem_cons_of_mem _ member)
  have typed : AllSpelled known function.type.nodes := by
    refine allSpelled_cons.mpr ⟨⟨?_, ?_, nofun, rfl⟩, header⟩
    · exact fun kind among => own.spelled kind (inside among)
    · exact fun name among => own.known name (inside among)
  have named : Piece known .word function.name := own.piece List.mem_cons_self
  have front := ((piece_storageText function.storage).closed_append
    (piece_inlineText function.isInline)).closed_append (function.type.piece_declaratorText 0 named typed)
  exact piece_unlines (List.forall_mem_cons.mpr
    ⟨front, function.body.piece_statementLines 0 "" .empty body⟩)

theorem Item.piece_text (item : Item) (written : ∀ text span, item ≠ .verbatim text span)
    (spelled : AllSpelled known item.nodes) : Piece known .closed item.text := by
  cases item with
  | function definition =>
    exact (definition.piece_text spelled).closed_append (.fixed (by decide))
  | declaration declared =>
    exact (declared.piece_declarationText 0 spelled).closed_append (.fixed (by decide))
  | typeDefinition type span =>
    have type := type.piece_declaratorText 0 .empty spelled
    exact type.toNumber.then_fixed (by decide) (by decide)
  | verbatim text span => exact absurd rfl (written text span)

theorem CompilationUnit.wordsAmong_text {unit : CompilationUnit}
    (written : ∀ item ∈ unit.items, ∀ text span, item ≠ .verbatim text span)
    (spelled : AllSpelled known unit.nodes) : WordsAmong known unit.text.toList := by
  have pieces : Piece known .closed unit.text := by
    refine .joined (List.forall_mem_map.mpr fun item member => item.piece_text (written item member) ?_)
    exact fun node inside => spelled node (List.mem_flatMap.mpr ⟨item, member, inside⟩)
  rw [← List.append_nil unit.text.toList]
  exact pieces [] trivial .nil

end Statements

end InlineMacro
