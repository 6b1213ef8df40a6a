import InlineMacro.Machine.Script

/-!
# Words and signs of scripts

How the text of a script is cut into words, operators and redirections. Quotes and expansions make
words of pieces; the documents that redirections announce follow the line.
-/

set_option autoImplicit false

namespace InlineMacro.Machine

/-! ## Characters -/

/-- The text that is left, and the number of its line. -/
structure Cursor where
  rest : List Char
  line : Nat
deriving Inhabited

abbrev Scanner := StateT Cursor (Except ScriptFault)

namespace Scanner

def fail {α : Type} (message : String) : Scanner α := do throw ⟨(← get).line, message⟩

def rest : Scanner (List Char) := do return (← get).rest

def skip (count : Nat) : Scanner Unit :=
  modify fun cursor =>
    ⟨cursor.rest.drop count, cursor.line + (cursor.rest.take count).count '\n'⟩

/-- Takes characters as long as they satisfy a condition. -/
def takeWhile (condition : Char → Bool) : Scanner (List Char) := do
  let taken := (← rest).takeWhile condition
  skip taken.length
  return taken

def within {α : Type} (text : List Char) (line : Nat) (scanner : Scanner α) : Scanner α := do
  match scanner.run ⟨text, line⟩ with
  | .ok (found, _) => return found
  | .error fault => throw fault

/-! ## Pieces -/

/-- What ends a run of pieces. -/
inductive Closing where
  | word
  | quote
  | brace
  | text
  | arithmetic (depth : Nat)
deriving DecidableEq, Inhabited, Repr

/-- Where a piece stands: what ends the run, and whether the run is in double quotes. -/
structure Context where
  closing : Closing
  isQuoted : Bool
deriving DecidableEq, Inhabited, Repr

def endsWord (character : Char) : Bool :=
  [' ', '\t', '\n', ';', '&', '|', '<', '>', '(', ')'].contains character

/-- Whether a backslash in double quotes takes a character's meaning away. -/
def isEscapable (context : Context) (character : Char) : Bool :=
  match character with
  | '$' | '\x60' | '\\' => true
  | '"' => context.closing != .text
  | '\x7d' => context.closing = .brace
  | _ => false

/-- What is known between the parentheses of a substitution: how many further ones and how many
choices are open, the quotes around, and whether a word begins. -/
structure Nesting where
  depth : Nat := 0
  choices : Nat := 0
  quote : Option Char := none
  isWordStart : Bool := true
deriving Inhabited, Repr

def beginsWith (word : String) (characters : List Char) : Bool :=
  word.toList.isPrefixOf characters && (characters.drop word.length).head?.all endsWord

/-- The nesting behind a character that no backslash stands before; none behind the parenthesis that
closes the substitution. Parentheses behind the patterns of a choice close nothing. -/
def Nesting.after? (nesting : Nesting) (character : Char) (rest : List Char) : Option Nesting :=
  let characters := character :: rest
  match nesting.quote with
  | some quote =>
    some { nesting with quote := if character = quote then none else some quote, isWordStart := false }
  | none =>
    let next := { nesting with isWordStart := endsWord character }
    if character = '\'' || character = '"' then some { next with quote := some character }
    else if character = '(' then some { next with depth := nesting.depth + 1 }
    else if character = ')' then
      if nesting.depth > 0 then some { next with depth := nesting.depth - 1 }
      else if nesting.choices > 0 then some next
      else none
    else if nesting.isWordStart && nesting.depth = 0 && beginsWith "case" characters then
      some { next with choices := nesting.choices + 1 }
    else if nesting.isWordStart && nesting.depth = 0 && beginsWith "esac" characters then
      some { next with choices := nesting.choices - 1 }
    else some next

/-- The text up to the parenthesis that closes a substitution, and what follows it. -/
def untilClosing (nesting : Nesting) : List Char → Option (List Char × List Char)
  | [] => none
  | ['\\'] => none
  | '\\' :: escaped :: rest =>
    let nesting := if nesting.quote = some '\'' && escaped = '\'' then { nesting with quote := none }
      else { nesting with isWordStart := false }
    (untilClosing nesting rest).map fun (inner, rest) => ('\\' :: escaped :: inner, rest)
  | character :: rest =>
    match nesting.after? character rest with
    | none => some ([], rest)
    | some nesting =>
      (untilClosing nesting rest).map fun (inner, rest) => (character :: inner, rest)

/-- The script of a substitution in backquotes, and what follows it. A backslash takes away the
meaning of a backquote, a dollar sign, another backslash, and a double quote if the substitution is
in quotes. -/
def untilBackquote (isQuoted : Bool) : List Char → Option (List Char × List Char)
  | [] => none
  | '\x60' :: rest => some ([], rest)
  | '\\' :: escaped :: rest =>
    let kept := if ['$', '\x60', '\\'].contains escaped || (isQuoted && escaped = '"') then [escaped]
      else ['\\', escaped]
    (untilBackquote isQuoted rest).map fun (inner, rest) => (kept ++ inner, rest)
  | character :: rest =>
    (untilBackquote isQuoted rest).map fun (inner, rest) => (character :: inner, rest)

/-- Takes the script that is found at the front. -/
def substitution (isQuoted : Bool) (missing : String) (found : Option (List Char × List Char)) :
    Scanner Piece := do
  let cursor ← get
  match found with
  | some (script, after) =>
    skip (cursor.rest.length - after.length)
    return .command cursor.line (String.ofList script) isQuoted
  | none =>
    skip cursor.rest.length
    fail missing

def isSpecialParameter (character : Char) : Bool :=
  ['@', '*', '#', '?', '-', '$', '!'].contains character || character.isDigit

/-- The name of a parameter in braces; empty if there is none. -/
def bracedName : Scanner String := do
  match ← rest with
  | character :: _ =>
    if character.isDigit then return String.ofList (← takeWhile Char.isDigit)
    else if isSpecialParameter character then do
      skip 1
      return character.toString
    else return String.ofList (← takeWhile isNameCharacter)
  | [] => return ""

/-- What the characters behind the name of a parameter say about its use. -/
def useOf : List Char → Use × Nat
  | '\x7d' :: _ => (.value, 0)
  | ':' :: '-' :: _ => (.standIn true, 2)
  | ':' :: '=' :: _ => (.assigned true, 2)
  | ':' :: '?' :: _ => (.required true, 2)
  | ':' :: '+' :: _ => (.replaced true, 2)
  | '-' :: _ => (.standIn false, 1)
  | '=' :: _ => (.assigned false, 1)
  | '?' :: _ => (.required false, 1)
  | '+' :: _ => (.replaced false, 1)
  | '%' :: '%' :: _ => (.withoutEnd true, 2)
  | '%' :: _ => (.withoutEnd false, 1)
  | '#' :: '#' :: _ => (.withoutStart true, 2)
  | '#' :: _ => (.withoutStart false, 1)
  | _ => (.malformed, 0)

def takesPattern : Use → Bool
  | .withoutStart _ | .withoutEnd _ => true
  | _ => false

def asksLength : List Char → Bool
  | '#' :: character :: _ => character != '\x7d' && (useOf (character :: [])).1 = .malformed
  | _ => false

mutual

def pieces : Nat → Context → Scanner Word
  | 0, _ => fail "Word too long"
  | budget + 1, context => do
    match context.closing, ← rest with
    | .quote, '"' :: _ => do
      skip 1
      return []
    | .brace, '\x7d' :: _ => do
      skip 1
      return []
    | .arithmetic 0, ')' :: ')' :: _ => do
      skip 2
      return []
    | .arithmetic 0, ')' :: _ => fail "Missing '))'"
    | .word, [] | .text, [] => return []
    | .quote, [] => fail "Unterminated quoted string"
    | .brace, [] => fail "Missing '\x7d'"
    | .arithmetic _, [] => fail "Missing '))'"
    | .word, character :: _ =>
      if endsWord character then return [] else piecesFrom budget context
    | .arithmetic depth, '(' :: _ => do
      skip 1
      return Word.push (.text "(" true) (← pieces budget ⟨.arithmetic (depth + 1), true⟩)
    | .arithmetic (depth + 1), ')' :: _ => do
      skip 1
      return Word.push (.text ")" true) (← pieces budget ⟨.arithmetic depth, true⟩)
    | _, _ => piecesFrom budget context

/-- At least one piece, and those up to what ends them. -/
def piecesFrom : Nat → Context → Scanner Word
  | 0, _ => fail "Word too long"
  | budget + 1, context => do
    let first ← piece budget context
    let others ← pieces budget context
    return first.foldr Word.push others

/-- What the next characters make, which may be more than one piece. -/
def piece : Nat → Context → Scanner Word
  | 0, _ => fail "Word too long"
  | budget + 1, context => do
    match ← rest with
    | '\\' :: '\n' :: _ => do
      skip 2
      return []
    | '\\' :: escaped :: _ => do
      skip 2
      let content := if !context.isQuoted || isEscapable context escaped then [escaped]
        else ['\\', escaped]
      return [.text (String.ofList content) true]
    | '$' :: _ => do
      skip 1
      return [← expansion budget context.isQuoted]
    | '\x60' :: _ => do
      skip 1
      let found := untilBackquote context.isQuoted (← rest)
      return [← substitution context.isQuoted "EOF in backquote substitution" found]
    | '"' :: _ =>
      if context.closing = .text || context.closing matches .arithmetic _ then do
        skip 1
        return [.text "\"" true]
      else do
        skip 1
        let inner ← pieces budget ⟨.quote, true⟩
        return if inner.isEmpty then [.text "" true] else inner
    | '\'' :: _ =>
      skip 1
      if context.isQuoted then return [.text "'" true]
      let content ← takeWhile (· != '\'')
      if (← rest).isEmpty then fail "Unterminated quoted string"
      skip 1
      return [.text (String.ofList content) true]
    | character :: _ => do
      skip 1
      return [.text character.toString context.isQuoted]
    | [] => return []

def expansion : Nat → Bool → Scanner Piece
  | 0, _ => fail "Word too long"
  | budget + 1, isQuoted => do
    match ← rest with
    | '(' :: '(' :: _ => do
      skip 2
      return .arithmetic (← pieces budget ⟨.arithmetic 0, true⟩) isQuoted
    | '(' :: _ => do
      skip 1
      let found := untilClosing {} (← rest)
      substitution isQuoted "end of file unexpected (expecting \")\")" found
    | '\x7b' :: _ => do
      skip 1
      braced budget isQuoted
    | character :: _ =>
      if isSpecialParameter character then do
        skip 1
        return .parameter character.toString .value [] isQuoted
      else if isNameCharacter character then do
        return .parameter (String.ofList (← takeWhile isNameCharacter)) .value [] isQuoted
      else return .text "$" isQuoted
    | [] => return .text "$" isQuoted

def braced : Nat → Bool → Scanner Piece
  | 0, _ => fail "Word too long"
  | budget + 1, isQuoted => do
    let isLength := asksLength (← rest)
    if isLength then skip 1
    let name ← bracedName
    let following ← rest
    let (use, length) := if name.isEmpty then (.malformed, 0) else useOf following
    skip length
    let argument ← pieces budget ⟨.brace, isQuoted && !takesPattern use⟩
    let use := if !isLength then use else if use = .value then .length else .malformed
    return .parameter name use argument isQuoted

end

/-- The pieces of a text that is expanded as in double quotes, though a double quote is as good as
any character. -/
def document (text : List Char) : Scanner Word := do
  let line := (← get).line
  within text line (pieces (2 * text.length + 4) ⟨.text, true⟩)

def word : Scanner Word := do
  let characters ← rest
  pieces (2 * characters.length + 4) ⟨.word, false⟩

/-! ## Symbols -/

/-- What a script is cut into. A document is filled in when its line has ended. -/
inductive Symbol where
  | word (word : Word)
  | operator (text : String)
  | redirection (descriptor : Nat) (direction : Direction)
  | document (descriptor : Nat) (content : Option Word)
  | finish
  | fault (message : String)
deriving Inhabited, Repr

abbrev Placed := Nat × Symbol

/-- A document that is to follow: the line that ends it, whether that is quoted so that nothing in
the document is expanded, and whether tabs in front of lines are left out. -/
structure Announcement where
  ending : String
  isQuoted : Bool
  dropsTabs : Bool
deriving Inhabited, Repr

def direction? : List Char → Option (Direction × Nat)
  | '>' :: '>' :: _ => some (.append, 2)
  | '>' :: '&' :: _ => some (.duplicate, 2)
  | '>' :: '|' :: _ => some (.write, 2)
  | '>' :: _ => some (.write, 1)
  | '<' :: '<' :: '-' :: _ => some (.document, 3)
  | '<' :: '<' :: _ => some (.document, 2)
  | '<' :: '&' :: _ => some (.duplicate, 2)
  | '<' :: '>' :: _ => some (.append, 2)
  | '<' :: _ => some (.read, 1)
  | _ => none

def operator? : List Char → Option (String × Nat)
  | ';' :: ';' :: _ => some (";;", 2)
  | '&' :: '&' :: _ => some ("&&", 2)
  | '|' :: '|' :: _ => some ("||", 2)
  | '\n' :: _ => some ("\n", 1)
  | ';' :: _ => some (";", 1)
  | '&' :: _ => some ("&", 1)
  | '|' :: _ => some ("|", 1)
  | '(' :: _ => some ("(", 1)
  | ')' :: _ => some (")", 1)
  | _ => none

/-- The descriptor in front of a redirection sign, the sign, and the length of both. -/
def redirection? (characters : List Char) : Option (Nat × Direction × Nat) :=
  let standard : Nat := if characters.head? = some '<' then 0 else 1
  match characters with
  | digit :: sign :: rest =>
    if digit.isDigit then
      (direction? (sign :: rest)).map fun (direction, length) =>
        (digit.toNat - 48, direction, length + 1)
    else (direction? characters).map fun (direction, length) => (standard, direction, length)
  | _ => (direction? characters).map fun (direction, length) => (standard, direction, length)

/-- The symbol at the front, and the document it announces. -/
def symbol : Scanner (Symbol × Option Announcement) := do
  let characters ← rest
  match redirection? characters with
  | some (descriptor, .document, length) =>
    skip length
    let _ ← takeWhile fun character => character = ' ' || character = '\t'
    if (direction? (← rest)).isSome then fail "redirection unexpected"
    let ending ← word
    if ending.isEmpty then fail "word expected"
    return (.document descriptor none,
      some ⟨ending.content, ending.any Piece.isQuoted, (characters.take length).contains '-'⟩)
  | some (descriptor, direction, length) =>
    skip length
    return (.redirection descriptor direction, none)
  | none =>
    match operator? characters with
    | some (text, length) =>
      skip length
      return (.operator text, none)
    | none => return (.word (← word), none)

def documentLines (announcement : Announcement) : Nat → Scanner (List Char)
  | 0 => return []
  | budget + 1 => do
    if (← rest).isEmpty then return []
    let line ← takeWhile (· != '\n')
    let line := if announcement.dropsTabs then line.dropWhile (· = '\t') else line
    skip 1
    if String.ofList line = announcement.ending then return []
    return line ++ '\n' :: (← documentLines announcement budget)

/-- Takes the documents that were announced, in order. -/
def documents : List Announcement → Scanner (List Word)
  | [] => return []
  | announcement :: announcements => do
    let text ← documentLines announcement ((← rest).length + 1)
    let content ←
      if announcement.isQuoted then pure [.text (String.ofList text) true] else document text
    return content :: (← documents announcements)

def fill : List Word → List Placed → List Placed
  | document :: documents, (line, .document descriptor none) :: symbols =>
    (line, .document descriptor (some document)) :: fill documents symbols
  | documents, symbol :: symbols => symbol :: fill documents symbols
  | _, [] => []

/-- Goes on behind the symbols that were found, which stand in reverse, with the documents that were
announced, in reverse too. -/
def step (found : List Placed) (announced : List Announcement) :
    Scanner (List Placed × List Announcement) := do
  match ← rest with
  | '\n' :: _ => do
    skip 1
    let place := (← get).line
    let contents ← documents announced.reverse
    return ((place, .operator "\n") :: fill contents.reverse found, [])
  | '\\' :: '\n' :: _ => do
    skip 2
    return (found, announced)
  | ' ' :: _ | '\t' :: _ => do
    skip 1
    return (found, announced)
  | '#' :: _ => do
    let _ ← takeWhile (· != '\n')
    return (found, announced)
  | _ => do
    let (symbol, announcement) ← symbol
    return (((← get).line, symbol) :: found, announcement.toList ++ announced)

def symbolsFrom : Nat → List Placed → List Announcement → Cursor → List Placed
  | 0, found, _, cursor => ((cursor.line, .finish) :: found).reverse
  | budget + 1, found, announced, cursor =>
    if cursor.rest.isEmpty then
      ((cursor.line, .finish) :: fill (announced.map fun _ => []) found).reverse
    else
      match (step found announced).run cursor with
      | .ok ((found, announced), cursor) => symbolsFrom budget found announced cursor
      | .error fault => ((fault.line, .fault fault.message) :: found).reverse

def symbols (line : Nat) (text : String) : List Placed :=
  symbolsFrom (text.length + 1) [] [] ⟨text.toList, line⟩

end Scanner

end InlineMacro.Machine
