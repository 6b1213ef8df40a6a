import InlineMacro.Machine.Script.Scanner

/-!
# Reading commands

How the symbols of a script make commands. Reading goes line by line, so that the commands in front
of a fault are known.
-/

set_option autoImplicit false

namespace InlineMacro.Machine

abbrev Reader := StateT (List Scanner.Placed) (Except ScriptFault)

namespace Reader

/-! ## Symbols -/

def reservedWords : List String :=
  ["!", "case", "do", "done", "elif", "else", "esac", "fi", "for", "if", "in", "then", "until", "while",
    "\x7b", "\x7d"]

def closingWords : List String := ["then", "elif", "else", "fi", "do", "done", "esac", "\x7d"]

def placed : Reader Scanner.Placed := do return (← get).head?.getD (1, .finish)

def peek : Reader Scanner.Symbol := do return (← placed).2

def line : Reader Nat := do return (← placed).1

def skip : Reader Unit := modify List.tail

def fail {α : Type} (message : String) : Reader α := do throw ⟨← line, message⟩

def describe : Scanner.Symbol → String
  | .word pieces =>
    match Word.plain? pieces with
    | some text => if reservedWords.contains text then "\"" ++ text ++ "\"" else "word"
    | none => "word"
  | .operator "\n" => "newline"
  | .operator text => "\"" ++ text ++ "\""
  | .redirection .. | .document .. => "redirection"
  | .finish => "end of file"
  | .fault message => message

/-- Gives up because the next symbol is not what is expected. -/
def unexpected {α : Type} (expected : Option String) : Reader α := do
  match ← peek with
  | .fault message => fail message
  | symbol =>
    let hint := match expected with
      | some name => " (expecting " ++ name ++ ")"
      | none => ""
    fail (describe symbol ++ " unexpected" ++ hint)

/-- The next symbol if it is a word without quotes. -/
def peekPlain : Reader (Option String) := do
  match ← peek with
  | .word pieces => return Word.plain? pieces
  | _ => return none

def tryOperator (text : String) : Reader Bool := do
  match ← peek with
  | .operator found => if found = text then do skip; return true else return false
  | _ => return false

def expectOperator (text : String) : Reader Unit := do
  if !(← tryOperator text) then unexpected (some ("\"" ++ text ++ "\""))

def tryWord (text : String) : Reader Bool := do
  if (← peekPlain) = some text then do skip; return true else return false

def expectWord (text : String) : Reader Unit := do
  if !(← tryWord text) then unexpected (some ("\"" ++ text ++ "\""))

def anyWord (expected : Option String) : Reader Word := do
  match ← peek with
  | .word pieces => do skip; return pieces
  | _ => unexpected expected

def newlines : Nat → Reader Unit
  | 0 => fail "Too long"
  | budget + 1 => do if ← tryOperator "\n" then newlines budget

def words : Nat → Reader (List Word)
  | 0 => fail "Too long"
  | budget + 1 => do
    match ← peek with
    | .word pieces => do skip; return pieces :: (← words budget)
    | _ => return []

/-! ## Redirections -/

/-- Whether a word can name a descriptor: a digit, a dash, or what is only known after expansion. -/
def namesDescriptor (target : Word) : Bool :=
  match Word.plain? target with
  | some text => text = "-" || text.length = 1 && text.all Char.isDigit
  | none => !target.all (· matches .text ..)

def tryRedirection : Reader (Option Redirection) := do
  match ← peek with
  | .redirection descriptor direction => do
    skip
    let target ← anyWord none
    if direction = .duplicate && !namesDescriptor target then fail "Bad fd number"
    return some ⟨descriptor, direction, target⟩
  | .document descriptor content => do
    skip
    return some ⟨descriptor, .document, content.getD []⟩
  | _ => return none

def redirections : Nat → Reader (List Redirection)
  | 0 => fail "Too long"
  | budget + 1 => do
    match ← tryRedirection with
    | some redirection => return redirection :: (← redirections budget)
    | none => return []

def simpleParts : Nat → Reader (List Word × List Redirection)
  | 0 => fail "Too long"
  | budget + 1 => do
    match ← tryRedirection with
    | some redirection =>
      let (words, redirections) ← simpleParts budget
      return (words, redirection :: redirections)
    | none =>
      match ← peek with
      | .word pieces => do
        skip
        let (words, redirections) ← simpleParts budget
        return (pieces :: words, redirections)
      | _ => return ([], [])

/-! ## Commands -/

def patterns : Nat → Reader (List Word)
  | 0 => fail "Too long"
  | budget + 1 => do
    let pattern ← anyWord none
    if ← tryOperator "|" then return pattern :: (← patterns budget)
    return [pattern]

def atListEnd : Reader Bool := do
  match ← peek with
  | .finish => return true
  | .operator text => return text = ")" || text = ";;"
  | .word pieces => return (Word.plain? pieces).any closingWords.contains
  | _ => return false

/-- The name of a function whose definition begins here. -/
def definedName? : Reader (Option String) := do
  match ← get with
  | (_, .word pieces) :: (_, .operator "(") :: _ =>
    return if (Word.assignment? pieces).isSome then none else some (Word.content pieces)
  | _ => return none

mutual

def list (canBeEmpty : Bool) : Nat → Reader Command
  | 0 => fail "Too long"
  | budget + 1 => do
    newlines budget
    if canBeEmpty && (← atListEnd) then return .nothing
    let first ← andOr budget
    if ← tryOperator "&" then return .sequence (.background first) (← list true budget)
    if ← tryOperator ";" then return .sequence first (← list true budget)
    if ← tryOperator "\n" then return .sequence first (← list true budget)
    return first

def andOr : Nat → Reader Command
  | 0 => fail "Too long"
  | budget + 1 => do andOrRest budget (← pipeline budget)

def andOrRest : Nat → Command → Reader Command
  | 0, _ => fail "Too long"
  | budget + 1, first => do
    if ← tryOperator "&&" then
      newlines budget
      andOrRest budget (.both first (← pipeline budget))
    else if ← tryOperator "||" then
      newlines budget
      andOrRest budget (.either first (← pipeline budget))
    else return first

def pipeline : Nat → Reader Command
  | 0 => fail "Too long"
  | budget + 1 => do
    if ← tryWord "!" then return .negation (← pipes budget)
    pipes budget

def pipes : Nat → Reader Command
  | 0 => fail "Too long"
  | budget + 1 => do
    let first ← command budget
    if ← tryOperator "|" then
      newlines budget
      return .pipe first (← pipes budget)
    return first

def command : Nat → Reader Command
  | 0 => fail "Too long"
  | budget + 1 => do
    let line ← line
    match ← compound budget with
    | some found =>
      let redirections ← redirections budget
      return if redirections.isEmpty then found else .redirected line found redirections
    | none =>
      if (← peekPlain).any reservedWords.contains then unexpected none
      match ← definedName? with
      | some name => definition budget name
      | none =>
        let (words, redirections) ← simpleParts budget
        if words.isEmpty && redirections.isEmpty then unexpected none
        return .simple line words redirections

def definition : Nat → String → Reader Command
  | 0, _ => fail "Too long"
  | budget + 1, name => do
    skip
    skip
    if (← peek) matches .word _ then fail "word unexpected (expecting \")\")"
    expectOperator ")"
    if !isName name then fail "Bad function name"
    newlines budget
    return .definition name (← command budget)

def compound : Nat → Reader (Option Command)
  | 0 => fail "Too long"
  | budget + 1 => do
    if ← tryOperator "(" then
      let body ← list false budget
      expectOperator ")"
      return some (.subshell body)
    match ← peekPlain with
    | some "\x7b" => do
      skip
      let body ← list false budget
      expectWord "\x7d"
      return some body
    | some "if" => do
      skip
      return some (← branches budget)
    | some "while" => do
      skip
      return some (← loop false budget)
    | some "until" => do
      skip
      return some (← loop true budget)
    | some "for" => do
      skip
      return some (← iteration budget)
    | some "case" => do
      skip
      let line ← line
      let subject ← anyWord (some "word")
      newlines budget
      expectWord "in"
      return some (.choice line subject (← arms budget))
    | _ => return none

def branches : Nat → Reader Command
  | 0 => fail "Too long"
  | budget + 1 => do
    let condition ← list false budget
    expectWord "then"
    let thenPart ← list false budget
    if ← tryWord "elif" then return .conditional condition thenPart (← branches budget)
    let elsePart ← if ← tryWord "else" then list false budget else pure .nothing
    expectWord "fi"
    return .conditional condition thenPart elsePart

def loop (isUntil : Bool) : Nat → Reader Command
  | 0 => fail "Too long"
  | budget + 1 => do
    let condition ← list false budget
    expectWord "do"
    let body ← list false budget
    expectWord "done"
    return .repeated isUntil condition body

def iteration : Nat → Reader Command
  | 0 => fail "Too long"
  | budget + 1 => do
    let line ← line
    let name := (← peekPlain).getD ""
    if !isName name then fail "Bad for loop variable"
    skip
    newlines budget
    let words ← if ← tryWord "in" then
        let words ← words budget
        if !(← tryOperator ";") && !(← tryOperator "\n") then unexpected none
        pure (some words)
      else
        let _ ← tryOperator ";"
        pure none
    newlines budget
    expectWord "do"
    let body ← list false budget
    expectWord "done"
    return .forEach line name words body

def arms : Nat → Reader (List (List Word × Command))
  | 0 => fail "Too long"
  | budget + 1 => do
    newlines budget
    if ← tryWord "esac" then return []
    let _ ← tryOperator "("
    let patterns ← patterns budget
    expectOperator ")"
    let body ← list true budget
    if ← tryOperator ";;" then return (patterns, body) :: (← arms budget)
    newlines budget
    if !(← tryWord "esac") then unexpected (some "\";;\"")
    return [(patterns, body)]

end

def commandLine : Nat → Reader Command
  | 0 => fail "Too long"
  | budget + 1 => do
    let first ← andOr budget
    let isBackground ← tryOperator "&"
    let isSeparated ← if isBackground then pure true else tryOperator ";"
    let first := if isBackground then .background first else first
    match ← peek with
    | .finish => return first
    | .operator "\n" => do
      skip
      return first
    | _ =>
      if isSeparated then return .sequence first (← commandLine budget)
      unexpected none

end Reader

namespace Script

def lines (budget : Nat) : Nat → List Scanner.Placed → Script
  | 0, _ => ⟨[], none⟩
  | _, [] => ⟨[], none⟩
  | _, (_, .finish) :: _ => ⟨[], none⟩
  | count + 1, (_, .operator "\n") :: symbols => lines budget count symbols
  | count + 1, symbols =>
    match (Reader.commandLine budget).run symbols with
    | .ok (command, symbols) =>
      let others := lines budget count symbols
      { others with commands := command :: others.commands }
    | .error fault => ⟨[], some fault⟩

def ofText (line : Nat) (text : String) : Script :=
  let symbols := Scanner.symbols line text
  lines (16 * (symbols.length + 2)) (symbols.length + 1) symbols

end Script

end InlineMacro.Machine
