/-!
# Operators

The binary and unary operators of C expressions, how they are written, and how tightly they bind.
-/

set_option autoImplicit false

namespace InlineMacro

/-! How tightly an expression of each class holds together: a higher number binds tighter. The
binary operators that are not named here lie between `logicalOr` and `unary`. -/

namespace Precedence

def comma : Nat := 1

def assignment : Nat := 2

def conditional : Nat := 3

def logicalOr : Nat := 4

def unary : Nat := 14

def suffixed : Nat := 15

def primary : Nat := 16

end Precedence

/-- The binary operators. Subscripting counts as one. -/
inductive BinaryOperator where
  | add | sub | mul | div | mod
  | bitAnd | bitOr | bitXor | leftShift | rightShift
  | logicalAnd | logicalOr
  | equal | notEqual | less | greater | lessEqual | greaterEqual
  | assign | addAssign | subAssign | mulAssign | divAssign | modAssign
  | bitAndAssign | bitOrAssign | bitXorAssign | leftShiftAssign | rightShiftAssign
  | index
deriving DecidableEq, Inhabited, Repr

namespace BinaryOperator

def precedence : BinaryOperator → Nat
  | index => Precedence.suffixed
  | mul | div | mod => 13
  | add | sub => 12
  | leftShift | rightShift => 11
  | less | greater | lessEqual | greaterEqual => 10
  | equal | notEqual => 9
  | bitAnd => 8
  | bitXor => 7
  | bitOr => 6
  | logicalAnd => 5
  | logicalOr => Precedence.logicalOr
  | _ => Precedence.assignment

def isAssignment (operator : BinaryOperator) : Bool :=
  operator.precedence == Precedence.assignment

def symbol : BinaryOperator → String
  | add => "+"
  | sub => "-"
  | mul => "*"
  | div => "/"
  | mod => "%"
  | bitAnd => "&"
  | bitOr => "|"
  | bitXor => "^"
  | leftShift => "<<"
  | rightShift => ">>"
  | logicalAnd => "&&"
  | logicalOr => "||"
  | equal => "=="
  | notEqual => "!="
  | less => "<"
  | greater => ">"
  | lessEqual => "<="
  | greaterEqual => ">="
  | assign => "="
  | addAssign => "+="
  | subAssign => "-="
  | mulAssign => "*="
  | divAssign => "/="
  | modAssign => "%="
  | bitAndAssign => "&="
  | bitOrAssign => "|="
  | bitXorAssign => "^="
  | leftShiftAssign => "<<="
  | rightShiftAssign => ">>="
  | index => "[]"

def all : List BinaryOperator :=
  [add, sub, mul, div, mod, bitAnd, bitOr, bitXor, leftShift, rightShift, logicalAnd, logicalOr,
   equal, notEqual, less, greater, lessEqual, greaterEqual,
   assign, addAssign, subAssign, mulAssign, divAssign, modAssign,
   bitAndAssign, bitOrAssign, bitXorAssign, leftShiftAssign, rightShiftAssign, index]

end BinaryOperator

/-- The unary operators. -/
inductive UnaryOperator where
  | plus | minus | bitNot | logicalNot
  | dereference | addressOf
  | preIncrement | postIncrement | preDecrement | postDecrement
deriving DecidableEq, Inhabited, Repr

namespace UnaryOperator

def followsOperand : UnaryOperator → Bool
  | postIncrement | postDecrement => true
  | _ => false

def symbol : UnaryOperator → String
  | plus => "+"
  | minus => "-"
  | bitNot => "~"
  | logicalNot => "!"
  | dereference => "*"
  | addressOf => "&"
  | preIncrement | postIncrement => "++"
  | preDecrement | postDecrement => "--"

def all : List UnaryOperator :=
  [plus, minus, bitNot, logicalNot, dereference, addressOf,
   preIncrement, postIncrement, preDecrement, postDecrement]

end UnaryOperator

end InlineMacro
