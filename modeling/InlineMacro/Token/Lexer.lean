import InlineMacro.Failure
import InlineMacro.Text.Decimal
import InlineMacro.Token

/-!
# From characters to tokens

The lexer works on preprocessed text: linemarkers move the location, `#pragma` and `#ident` lines
are skipped, and any other directive is refused. What belongs to a token is decided by functions
on the text ahead (`numberText`, `quotedText`, `Mark.longest?`); the scanner moves its cursor over
what they return. The cursor stays where a fault was found, so scanning can be taken up again
behind it.
-/

set_option autoImplicit false

namespace InlineMacro

/-- The text still ahead, and where it stands in its file. Lines and columns are counted with 32
bits; what lies behind a count that does not fit is never seen. -/
structure Cursor where
  rest : List Char
  line : Nat := 1
  column : Nat := 1
  file : String := "<input>"
  atLineStart : Bool := true
  overflowed : Bool := false
deriving Inhabited, Repr

namespace Cursor

def ofText (text : String) (file : String := "<input>") : Cursor :=
  { rest := text.toList, file := file }

def location (cursor : Cursor) : Location :=
  ⟨cursor.file, cursor.line, cursor.column⟩

def isFull (counter : Nat) : Bool := Text.lineBound ≤ counter + 1

def advance (cursor : Cursor) : Cursor :=
  match cursor.rest with
  | [] => cursor
  | '\n' :: rest =>
    { cursor with
      rest := rest, line := cursor.line + 1, column := 1, atLineStart := true
      overflowed := cursor.overflowed || isFull cursor.line }
  | _ :: rest =>
    { cursor with
      rest := rest, column := cursor.column + 1
      overflowed := cursor.overflowed || isFull cursor.column }

def past : Nat → Cursor → Cursor
  | 0, cursor => cursor
  | count + 1, cursor => past count cursor.advance

end Cursor

namespace Lexer

/-! ## What belongs to a token -/

def isNumberCharacter (character : Char) : Bool :=
  character.isAlphanum || character == '.' || character == '_'

def isExponentMark (character : Char) : Bool :=
  character == 'e' || character == 'E' || character == 'p' || character == 'P'

def numberText : List Char → List Char
  | [] => []
  | [character] => if isNumberCharacter character then [character] else []
  | character :: next :: rest =>
    if !isNumberCharacter character then []
    else if isExponentMark character && (next == '+' || next == '-') then
      character :: next :: numberText rest
    else character :: numberText (next :: rest)

/-- A number is a floating one by its point or by the exponent mark of its base. -/
def numberLexeme (number : List Char) : Lexeme :=
  let lower := number.map Char.toLower
  let isHex := ['0', 'x'].isPrefixOf lower
  let isFloat := lower.contains '.' || (!isHex && lower.contains 'e') ||
    (isHex && lower.contains 'p')
  if isFloat then .floatLiteral (String.ofList number) else .intLiteral (String.ofList number)

/-- The text behind an opening quote up to its closing one, and whether there is one. A backslash
takes the next character with it, and no literal goes on behind the end of a line. -/
def quotedText (quote : Char) : List Char → List Char × Bool
  | [] => ([], false)
  | ['\\'] => (['\\'], false)
  | '\\' :: escaped :: rest =>
    let (text, isClosed) := quotedText quote rest
    ('\\' :: escaped :: text, isClosed)
  | '\n' :: _ => ([], false)
  | character :: rest =>
    if character == quote then ([character], true)
    else
      let (text, isClosed) := quotedText quote rest
      (character :: text, isClosed)

def commentText : List Char → List Char × Bool
  | [] => ([], false)
  | '*' :: '/' :: _ => (['*', '/'], true)
  | character :: rest =>
    let (text, isClosed) := commentText rest
    (character :: text, isClosed)

def isIdentifierStart (character : Char) : Bool :=
  Text.isLetter character || character == '_' || character == '$'

def isIdentifierCharacter (character : Char) : Bool :=
  Text.isLetterOrNumeral character || character == '_' || character == '$'

def literalPrefixes : List String := ["L", "u", "U", "u8"]

/-! ## Scanning -/

abbrev Scan := EStateM Failure Cursor

def fault {α : Type} (location : Location) (cause : LexicalFault) : Scan α :=
  throw (.lexical location cause)

def take (text : List Char) : Scan Unit :=
  modify (Cursor.past text.length)

def number : Scan Lexeme := do
  let text := numberText (← get).rest
  take text
  if text.length = 2 ∧ ['0', 'x'].isPrefixOf (text.map Char.toLower) then
    fault (← get).location .invalidHexLiteral
  else
    pure (numberLexeme text)

def quoted (quote : Char) (what : String) : Scan (List Char) := do
  let opening := (← get).rest.take 1
  take opening
  let (text, isClosed) := quotedText quote (← get).rest
  take text
  if isClosed then pure (opening ++ text)
  else fault (← get).location (.unterminatedLiteral what)

/-- Scans a character literal behind its prefix. -/
def charLiteral (leading : String) : Scan Lexeme := do
  let text := String.ofList (← quoted '\'' "character")
  if text.utf8ByteSize = 2 then fault (← get).location .emptyCharacterLiteral
  else pure (.charLiteral (leading ++ text))

def stringLiteral (leading : String) : Scan Lexeme := do
  let text := String.ofList (← quoted '"' "string")
  pure (.stringLiteral (leading ++ text))

/-- Scans a word: an identifier, a keyword, or the prefix of a literal. -/
def word : Scan Lexeme := do
  let characters := (← get).rest.takeWhile isIdentifierCharacter
  take characters
  let name := String.ofList characters
  match literalPrefixes.contains name, (← get).rest with
  | true, '"' :: _ => stringLiteral name
  | true, '\'' :: _ => charLiteral name
  | _, _ =>
    match Keyword.ofSpelling? name with
    | some keyword => pure (.keyword keyword)
    | none => pure (.identifier name)

/-- Scans a punctuation mark, or the end of the text. -/
def mark : Scan Lexeme := do
  let cursor ← get
  match cursor.rest with
  | [] => pure .endOfFile
  | character :: rest =>
    match Mark.longest? (character :: rest) with
    | some sign =>
      take sign.spelling.toList
      pure (.mark sign)
    | none =>
      take [character]
      fault cursor.location (.unexpectedCharacter character)

def lineComment : Scan Unit := do
  take ((← get).rest.takeWhile (· != '\n'))

/-- Skips a comment that has a closing mark. -/
def blockComment : Scan Unit := do
  let opening ← get
  take ['/', '*']
  let (text, isClosed) := commentText (← get).rest
  take text
  if !isClosed then fault opening.location .unterminatedComment

/-- The text between the first two double quotes. -/
def betweenQuotes? (characters : List Char) : Option String :=
  match characters.dropWhile (· != '"') with
  | [] => none
  | _ :: rest =>
    match rest.span (· != '"') with
    | (_, []) => none
    | (name, _ :: _) => some (String.ofList name)

/-- What a directive line says. -/
inductive Directive where
  | linemarker (number : List Char) (rest : List Char)
  | ignored
  | refused (word : List Char)

/-- Reads the words of a directive line. A linemarker is a number, or the word `line` with a
number; what follows them may name a file. -/
def readDirective (line : List Char) : Directive :=
  let body := Text.trim (line.dropWhile (· == '#'))
  match Text.words body with
  | [] => .ignored
  | first :: others =>
    if first.all Char.isDigit then
      .linemarker first ((Text.splitAtMost Text.isBlank 2 body).getLastD [])
    else if first == "line".toList then
      match others with
      | [] => .refused first
      | second :: _ => .linemarker second ((Text.splitAtMost Text.isBlank 3 body).getLastD [])
    else if first == "pragma".toList || first == "ident".toList then .ignored
    else .refused first

/-- Takes a directive line: a linemarker tells the number, and perhaps the file, of the line that
follows it. -/
def directive : Scan Unit := do
  let opening ← get
  let line := opening.rest.takeWhile (· != '\n')
  set (Cursor.past (line.length + 1) opening)
  match readDirective line with
  | .ignored => pure ()
  | .refused name => fault opening.location (.unexpectedDirective (String.ofList name))
  | .linemarker number rest =>
    match Text.boundedDecimal? Text.lineBound number with
    | none => fault opening.location (.invalidLineNumber (String.ofList line))
    | some following =>
      modify fun cursor =>
        { cursor with file := (betweenQuotes? rest).getD cursor.file, line := following }

/-- Skips one blank, comment, line continuation or directive; `false` where a token starts. -/
def skipOne : Scan Bool := do
  let cursor ← get
  match cursor.rest with
  | [] => pure false
  | '\\' :: '\n' :: _ => take ['\\', '\n']; pure true
  | '/' :: '/' :: _ => lineComment; pure true
  | '/' :: '*' :: _ => blockComment; pure true
  | character :: _ =>
    if Text.isBlank character then take [character]; pure true
    else if character == '#' && cursor.atLineStart then directive; pure true
    else pure false

/-- Skips what separates tokens, in at most as many steps as the budget allows. -/
def skipWithin : Nat → Scan Unit
  | 0 => pure ()
  | budget + 1 => do
    if ← skipOne then skipWithin budget

def skipTrivia : Scan Unit := do
  skipWithin ((← get).rest.length + 1)

def lexeme : Scan Lexeme := do
  match (← get).rest with
  | [] => pure .endOfFile
  | character :: rest =>
    if isIdentifierStart character then word
    else if character.isDigit then number
    else if character == '.' && (rest.head?.any Char.isDigit) then number
    else if character == '\'' then charLiteral ""
    else if character == '"' then stringLiteral ""
    else mark

def next : Scan Token := do
  skipTrivia
  modify ({ · with atLineStart := false })
  let start := (← get).location
  let kind ← lexeme
  pure ⟨kind, start, (← get).location⟩

/-- Scans tokens up to the end of the file, which is one of them, in at most as many steps as the
budget allows. -/
def tokensWithin : Nat → Scan (List Token)
  | 0 => pure []
  | budget + 1 => do
    let token ← next
    if token.lexeme = .endOfFile then pure [token]
    else return token :: (← tokensWithin budget)

def tokens : Scan (List Token) := do
  tokensWithin ((← get).rest.length + 1)

/-- Scans, and gives up if a counter did not fit its type on the way. -/
def checked {α : Type} (scan : Scan α) : Scan α := fun cursor =>
  match scan cursor with
  | .ok result cursor =>
    if cursor.overflowed then .error .overflow cursor else .ok result cursor
  | .error failure cursor =>
    .error (if cursor.overflowed then .overflow else failure) cursor

def tokenize (text : String) (file : String := "<input>") : Except Failure (List Token) :=
  match (checked tokens).run (.ofText text file) with
  | .ok result _ => .ok result
  | .error failure _ => .error failure

end Lexer

end InlineMacro
