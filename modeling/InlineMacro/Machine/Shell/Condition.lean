import InlineMacro.Machine.Files
import InlineMacro.Machine.Numeral

/-!
# Conditions

The questions about texts, numbers and files that `test` answers. They stand in words, of which some
are operators or operands depending on what follows them.
-/

set_option autoImplicit false

namespace InlineMacro.Machine.Condition

/-! ## Words -/

def unaryOperators : List String :=
  ["-r", "-w", "-x", "-f", "-d", "-c", "-b", "-p", "-u", "-g", "-k", "-s", "-t", "-z", "-n", "-h",
    "-L", "-O", "-G", "-S", "-e"]

def binaryOperators : List String :=
  ["=", "!=", "<", ">", "-eq", "-ne", "-gt", "-ge", "-lt", "-le", "-nt", "-ot", "-ef"]

/-- What the first of some words is. -/
inductive Role where
  | finish
  | operand
  | unary
  | binary
  | negation
  | conjunction
  | disjunction
  | opening
  | closing
deriving DecidableEq, Inhabited, Repr

def makeOperand : List String → Bool
  | [] => true
  | [_] => false
  | next :: _ => binaryOperators.contains next

def role : List String → Role
  | [] => .finish
  | word :: others =>
    if word = "!" then .negation
    else if word = "-a" then .conjunction
    else if word = "-o" then .disjunction
    else if word = "(" then if others.isEmpty then .operand else .opening
    else if word = ")" then .closing
    else if binaryOperators.contains word then .binary
    else if unaryOperators.contains word && !makeOperand others then .unary
    else .operand

/-! ## Answers -/

abbrev Answer := Except String (Bool × List String)

def hasContent (files : Files) (path : String) : Bool :=
  match files.read path with
  | .ok bytes => bytes.size > 0
  | .error _ => false

def canRun (files : Files) (path : String) : Bool :=
  match files.find path with
  | .ok (_, some (.file _ isExecutable)) => isExecutable
  | .ok (_, some .directory) => true
  | _ => false

def isDevice (files : Files) (path : String) : Bool :=
  match files.locate path with
  | .ok place => place = Files.nullDevice
  | .error _ => false

def number (text : String) : Except String Int :=
  match Numeral.decimal? text with
  | some value => .ok value
  | none => .error ("Illegal number: " ++ text)

def unary (files : Files) (operator operand : String) : Except String Bool :=
  match operator with
  | "-z" => .ok operand.isEmpty
  | "-n" => .ok !operand.isEmpty
  | "-f" => .ok (files.hasFile operand && !isDevice files operand)
  | "-c" => .ok (isDevice files operand)
  | "-d" => .ok (files.hasDirectory operand)
  | "-e" | "-r" | "-w" | "-O" | "-G" => .ok (files.contains operand)
  | "-x" => .ok (canRun files operand)
  | "-s" => .ok (hasContent files operand || files.hasDirectory operand)
  | "-t" => (number operand).map fun _ => false
  | _ => .ok false

/-- The answer of an operator with two operands. -/
def binary (files : Files) (operator left right : String) : Except String Bool := do
  match operator with
  | "=" => return left = right
  | "!=" => return left ≠ right
  | "<" => return left < right
  | ">" => return right < left
  | "-eq" => return (← number left) = (← number right)
  | "-ne" => return (← number left) ≠ (← number right)
  | "-gt" => return (← number left) > (← number right)
  | "-ge" => return (← number left) ≥ (← number right)
  | "-lt" => return (← number left) < (← number right)
  | "-le" => return (← number left) ≤ (← number right)
  | "-ef" => return files.contains left && (files.locate left).toOption = (files.locate right).toOption
  | _ => return false

mutual

/-- Questions of which one has to be answered with yes. -/
def disjunction (files : Files) : Nat → Role → List String → Answer
  | 0, _, words => .ok (false, words)
  | budget + 1, first, words => do
    let (answer, words) ← conjunction files budget first words
    match words.tail with
    | "-o" :: words => do
      let (other, words) ← disjunction files budget (role words) words
      pure (answer || other, words)
    | _ => pure (answer, words)

/-- Questions that all have to be answered with yes. -/
def conjunction (files : Files) : Nat → Role → List String → Answer
  | 0, _, words => .ok (false, words)
  | budget + 1, first, words => do
    let (answer, words) ← negation files budget first words
    match words.tail with
    | "-a" :: words => do
      let (other, words) ← conjunction files budget (role words) words
      pure (answer && other, words)
    | _ => pure (answer, words)

def negation (files : Files) : Nat → Role → List String → Answer
  | 0, _, words => .ok (false, words)
  | budget + 1, .negation, words => do
    let next := role words.tail
    let (answer, words) ← negation files budget next (if next = .finish then words else words.tail)
    pure (!answer, words)
  | budget + 1, first, words => primary files budget first words

def primary (files : Files) : Nat → Role → List String → Answer
  | 0, _, words => .ok (false, words)
  | budget + 1, first, words =>
    match first, words with
    | .finish, _ | _, [] => .ok (false, words)
    | .opening, _ :: inner =>
      if role inner = .closing then .ok (false, inner)
      else do
        let (answer, words) ← disjunction files budget (role inner) inner
        if role words.tail = .closing then pure (answer, words.tail)
        else .error "closing paren expected"
    | .unary, operator :: operands =>
      match operands with
      | [] => .error (operator ++ ": argument expected")
      | operand :: _ => (unary files operator operand).map fun answer => (answer, operands)
    | _, left :: others =>
      match others with
      | operator :: operands =>
        if role others = .binary then
          match operands with
          | [] => .error (operator ++ ": argument expected")
          | right :: _ => (binary files operator left right).map fun answer => (answer, operands)
        else .ok (!left.isEmpty, words)
      | [] => .ok (!left.isEmpty, words)

end

/-- The answer to a question that is told apart by its number of words where that is possible. -/
def answer (files : Files) : List String → Except String Bool
  | [] => .ok false
  | words => do
    let known := match words with
      | [_, operator, _] => if binaryOperators.contains operator then Role.operand else role words
      | _ => role words
    let (found, rest) ← disjunction files (4 * words.length + 8) known words
    match rest with
    | last :: _ :: _ => .error (last ++ ": unexpected operator")
    | _ => pure found

def test (files : Files) : List String → Except String Bool
  | ["!", first, second, third] => (answer files [first, second, third]).map not
  | ["!", first, second] =>
    if binaryOperators.contains first then answer files ["!", first, second]
    else (answer files [first, second]).map not
  | ["(", first, second, ")"] => answer files [first, second]
  | ["(", first, ")"] =>
    if binaryOperators.contains first then answer files ["(", first, ")"] else answer files [first]
  | words => answer files words

end InlineMacro.Machine.Condition
