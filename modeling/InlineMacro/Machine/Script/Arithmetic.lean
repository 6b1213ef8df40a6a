import InlineMacro.Association
import InlineMacro.Machine.Numeral
import InlineMacro.Machine.Script

/-!
# Arithmetic of scripts

The value of an arithmetic expansion: whole numbers of 64 bits, variables, and the operators of C
except those that count up and down. What is not reached because of a condition is read but changes
nothing.
-/

set_option autoImplicit false

namespace InlineMacro.Machine.Arithmetic

/-! ## Symbols -/

/-- What an expression is cut into. -/
inductive Lexeme where
  | literal (value : Int)
  | variableName (name : String)
  | operator (text : String)
  | unknown
deriving DecidableEq, Inhabited, Repr

def operators : List String :=
  ["<<=", ">>=", "<<", ">>", "<=", ">=", "==", "!=", "&&", "||", "+=", "-=", "*=", "/=", "%=", "&=",
    "^=", "|=", "+", "-", "*", "/", "%", "<", ">", "=", "!", "~", "&", "^", "|", "?", ":", "(", ")"]

/-- The symbol at the front, and what follows it. -/
def lexeme (characters : List Char) : Lexeme × List Char :=
  match Numeral.unsigned? characters with
  | some (value, rest) => (.literal (Numeral.wrapped value), rest)
  | none =>
    let name := characters.takeWhile isNameCharacter
    if !name.isEmpty then (.variableName (String.ofList name), characters.drop name.length)
    else
      match operators.find? fun operator => operator.toList.isPrefixOf characters with
      | some operator => (.operator operator, characters.drop operator.length)
      | none => (.unknown, [])

/-- The symbols of an expression, up to one that is unknown. -/
def lexemes : Nat → List Char → List Lexeme
  | 0, _ => []
  | budget + 1, characters =>
    match Text.trimStart characters with
    | [] => []
    | character :: rest =>
      let (first, rest) := lexeme (character :: rest)
      first :: lexemes budget rest

/-! ## Values -/

/-- The state of an evaluation: the symbols that are left, and the variables. -/
structure Progress where
  rest : List Lexeme
  bindings : Association String
deriving Inhabited

abbrev Evaluation := StateT Progress (Except String)

def bits (value : Int) : Nat := (value % Nat.pow 2 64).toNat

def ofBool (answer : Bool) : Int := if answer then 1 else 0

/-- How tightly an operator with two operands binds; none if there is no such operator. -/
def binding? : String → Option Nat
  | "*" | "/" | "%" => some 8
  | "+" | "-" => some 7
  | "<<" | ">>" => some 6
  | "<" | ">" | "<=" | ">=" => some 5
  | "==" | "!=" => some 4
  | "&" => some 3
  | "^" => some 2
  | "|" => some 1
  | _ => none

/-- What an operator makes of two numbers; none if it divides by zero. -/
def outcome? (operator : String) (left right : Int) : Option Int :=
  match operator with
  | "*" => some (left * right)
  | "/" => if right = 0 then none else some (left.tdiv right)
  | "%" => if right = 0 then none else some (left.tmod right)
  | "+" => some (left + right)
  | "-" => some (left - right)
  | "<<" => some (left * Nat.pow 2 (bits right % 64))
  | ">>" => some (left / Nat.pow 2 (bits right % 64))
  | "<" => some (ofBool (left < right))
  | ">" => some (ofBool (left > right))
  | "<=" => some (ofBool (left ≤ right))
  | ">=" => some (ofBool (left ≥ right))
  | "==" => some (ofBool (left = right))
  | "!=" => some (ofBool (left ≠ right))
  | "&" => some (bits left &&& bits right : Nat)
  | "^" => some (bits left ^^^ bits right : Nat)
  | _ => some (bits left ||| bits right : Nat)

def compound? (operator : String) : Option String :=
  if ["<<=", ">>=", "+=", "-=", "*=", "/=", "%=", "&=", "^=", "|="].contains operator then
    some (operator.dropEnd 1).toString
  else none

/-- The next symbol if it is an operator. -/
def peekOperator : Evaluation (Option String) := do
  match (← get).rest with
  | .operator text :: _ => return some text
  | _ => return none

def skip : Evaluation Unit :=
  modify fun progress => { progress with rest := progress.rest.tail }

def tryOperator (text : String) : Evaluation Bool := do
  if (← peekOperator) = some text then
    skip
    return true
  return false

def complaint (source message : String) : String :=
  "arithmetic expression: " ++ message ++ ": \"" ++ source ++ "\""

def combined (source operator : String) (left right : Int) : Evaluation Int := do
  match outcome? operator left right with
  | some value => return Numeral.wrapped value
  | none => throw (complaint source "division by zero")

/-- The value of a variable; an empty one counts as zero. -/
def valueOf (name : String) : Evaluation Int := do
  let text := ((← get).bindings.find? name).getD ""
  if text.isEmpty then return 0
  match Numeral.signed? text.toList with
  | some (value, rest) =>
    if (Text.trim rest).isEmpty then return Numeral.wrapped value
    throw ("Illegal number: " ++ text)
  | none => throw ("Illegal number: " ++ text)

def setVariable (name : String) (value : Int) : Evaluation Int := do
  modify fun progress =>
    { progress with bindings := progress.bindings.insert name (toString value) }
  return value

mutual

/-- An expression that may assign; without effect if it is not reached. -/
def assignment (source : String) (isReached : Bool) : Nat → Evaluation Int
  | 0 => throw (complaint source "expecting primary")
  | budget + 1 => do
    match (← get).rest with
    | .variableName name :: .operator "=" :: _ =>
      skip
      skip
      let value ← assignment source isReached budget
      if isReached then setVariable name value else return value
    | .variableName name :: .operator operator :: _ =>
      match compound? operator with
      | some operator =>
        skip
        skip
        let value ← assignment source isReached budget
        if isReached then setVariable name (← combined source operator (← valueOf name) value)
        else return value
      | none => conditional source isReached budget
    | _ => conditional source isReached budget

def conditional (source : String) (isReached : Bool) : Nat → Evaluation Int
  | 0 => throw (complaint source "expecting primary")
  | budget + 1 => do
    let condition ← disjunction source isReached budget
    if !(← tryOperator "?") then return condition
    let holds := condition != 0
    let first ← assignment source (isReached && holds) budget
    if !(← tryOperator ":") then throw (complaint source "expecting ':'")
    let second ← conditional source (isReached && !holds) budget
    return if holds then first else second

/-- Expressions of which one has to hold. -/
def disjunction (source : String) (isReached : Bool) : Nat → Evaluation Int
  | 0 => throw (complaint source "expecting primary")
  | budget + 1 => do
    let first ← conjunction source isReached budget
    if !(← tryOperator "||") then return first
    let second ← disjunction source (isReached && first = 0) budget
    return ofBool (first != 0 || second != 0)

def conjunction (source : String) (isReached : Bool) : Nat → Evaluation Int
  | 0 => throw (complaint source "expecting primary")
  | budget + 1 => do
    let first ← operation source isReached 1 budget
    if !(← tryOperator "&&") then return first
    let second ← conjunction source (isReached && first != 0) budget
    return ofBool (first != 0 && second != 0)

def operation (source : String) (isReached : Bool) (least : Nat) : Nat → Evaluation Int
  | 0 => throw (complaint source "expecting primary")
  | budget + 1 => do operationFrom source isReached least budget (← primary source isReached budget)

def operationFrom (source : String) (isReached : Bool) (least : Nat) : Nat → Int → Evaluation Int
  | 0, _ => throw (complaint source "expecting primary")
  | budget + 1, left => do
    let operator := (← peekOperator).getD ""
    match binding? operator with
    | none => return left
    | some own =>
      if own < least then return left
      skip
      let right ← operation source isReached (own + 1) budget
      let value ← if isReached then combined source operator left right else pure right
      operationFrom source isReached least budget value

/-- An expression without operators between its parts. -/
def primary (source : String) (isReached : Bool) : Nat → Evaluation Int
  | 0 => throw (complaint source "expecting primary")
  | budget + 1 => do
    match (← get).rest with
    | .literal value :: _ =>
      skip
      return value
    | .variableName name :: _ =>
      skip
      if isReached then valueOf name else return 0
    | .operator "(" :: _ =>
      skip
      let value ← assignment source isReached budget
      if !(← tryOperator ")") then throw (complaint source "expecting ')'")
      return value
    | .operator "+" :: _ =>
      skip
      primary source isReached budget
    | .operator "-" :: _ =>
      skip
      return Numeral.wrapped (-(← primary source isReached budget))
    | .operator "!" :: _ =>
      skip
      return ofBool ((← primary source isReached budget) = 0)
    | .operator "~" :: _ =>
      skip
      return -(← primary source isReached budget) - 1
    | _ => throw (complaint source "expecting primary")

end

/-- The value of an expression and the variables behind it, or what is to be said about it. -/
def evaluate (source : String) (bindings : Association String) :
    Except String (Int × Association String) := do
  let symbols := lexemes (source.length + 1) source.toList
  let budget := 16 * (symbols.length + 2)
  let (value, progress) ← (assignment source true budget).run ⟨symbols, bindings⟩
  if progress.rest.isEmpty then pure (value, progress.bindings)
  else .error (complaint source "expecting EOF")

end InlineMacro.Machine.Arithmetic
