import InlineMacro.Source

/-!
# Tokens

The words of C: literals, identifiers, keywords and punctuation marks. A literal and an identifier
keep their spelling; every other token is told by its kind alone, and `Lexeme.spelling` gives the
one text with which it is written.
-/

set_option autoImplicit false

namespace InlineMacro

/-- The keywords of C99, and `asm`. -/
inductive Keyword where
  | kwAuto | kwBreak | kwCase | kwChar | kwConst | kwContinue | kwDefault | kwDo
  | kwDouble | kwElse | kwEnum | kwExtern | kwFloat | kwFor | kwGoto | kwIf
  | kwInline | kwInt | kwLong | kwRegister | kwRestrict | kwReturn | kwShort | kwSigned
  | kwSizeof | kwStatic | kwStruct | kwSwitch | kwTypedef | kwUnion | kwUnsigned | kwVoid
  | kwVolatile | kwWhile | kwBool | kwAsm
deriving DecidableEq, Inhabited, Repr

def Keyword.spelling : Keyword → String
  | kwAuto => "auto"
  | kwBreak => "break"
  | kwCase => "case"
  | kwChar => "char"
  | kwConst => "const"
  | kwContinue => "continue"
  | kwDefault => "default"
  | kwDo => "do"
  | kwDouble => "double"
  | kwElse => "else"
  | kwEnum => "enum"
  | kwExtern => "extern"
  | kwFloat => "float"
  | kwFor => "for"
  | kwGoto => "goto"
  | kwIf => "if"
  | kwInline => "inline"
  | kwInt => "int"
  | kwLong => "long"
  | kwRegister => "register"
  | kwRestrict => "restrict"
  | kwReturn => "return"
  | kwShort => "short"
  | kwSigned => "signed"
  | kwSizeof => "sizeof"
  | kwStatic => "static"
  | kwStruct => "struct"
  | kwSwitch => "switch"
  | kwTypedef => "typedef"
  | kwUnion => "union"
  | kwUnsigned => "unsigned"
  | kwVoid => "void"
  | kwVolatile => "volatile"
  | kwWhile => "while"
  | kwBool => "_Bool"
  | kwAsm => "asm"

def Keyword.all : List Keyword :=
  [.kwAuto, .kwBreak, .kwCase, .kwChar, .kwConst, .kwContinue, .kwDefault, .kwDo,
   .kwDouble, .kwElse, .kwEnum, .kwExtern, .kwFloat, .kwFor, .kwGoto, .kwIf,
   .kwInline, .kwInt, .kwLong, .kwRegister, .kwRestrict, .kwReturn, .kwShort, .kwSigned,
   .kwSizeof, .kwStatic, .kwStruct, .kwSwitch, .kwTypedef, .kwUnion, .kwUnsigned, .kwVoid,
   .kwVolatile, .kwWhile, .kwBool, .kwAsm]

/-- Spellings that compilers accept beside the standard one. -/
def Keyword.alternateSpellings : List (String × Keyword) :=
  [("__inline", .kwInline), ("__inline__", .kwInline),
   ("__restrict", .kwRestrict), ("__restrict__", .kwRestrict),
   ("__const", .kwConst), ("__const__", .kwConst),
   ("__volatile", .kwVolatile), ("__volatile__", .kwVolatile),
   ("__signed", .kwSigned), ("__signed__", .kwSigned),
   ("__asm", .kwAsm), ("__asm__", .kwAsm)]

def Keyword.ofSpelling? (word : String) : Option Keyword :=
  match Keyword.all.find? (·.spelling == word) with
  | some keyword => some keyword
  | none => Keyword.alternateSpellings.lookup word

/-- Operators, brackets and separators. -/
inductive Mark where
  | plus | minus | star | slash | percent | ampersand | pipe | caret | tilde | bang
  | equal | less | greater | question | colon
  | plusPlus | minusMinus | leftShift | rightShift | lessEqual | greaterEqual
  | equalEqual | bangEqual | ampersandAmpersand | pipePipe
  | plusEqual | minusEqual | starEqual | slashEqual | percentEqual
  | ampersandEqual | pipeEqual | caretEqual | leftShiftEqual | rightShiftEqual
  | leftParen | rightParen | leftBrace | rightBrace | leftBracket | rightBracket
  | semicolon | comma | dot | arrow | ellipsis
deriving DecidableEq, Inhabited, Repr

def Mark.spelling : Mark → String
  | plus => "+"
  | minus => "-"
  | star => "*"
  | slash => "/"
  | percent => "%"
  | ampersand => "&"
  | pipe => "|"
  | caret => "^"
  | tilde => "~"
  | bang => "!"
  | equal => "="
  | less => "<"
  | greater => ">"
  | question => "?"
  | colon => ":"
  | plusPlus => "++"
  | minusMinus => "--"
  | leftShift => "<<"
  | rightShift => ">>"
  | lessEqual => "<="
  | greaterEqual => ">="
  | equalEqual => "=="
  | bangEqual => "!="
  | ampersandAmpersand => "&&"
  | pipePipe => "||"
  | plusEqual => "+="
  | minusEqual => "-="
  | starEqual => "*="
  | slashEqual => "/="
  | percentEqual => "%="
  | ampersandEqual => "&="
  | pipeEqual => "|="
  | caretEqual => "^="
  | leftShiftEqual => "<<="
  | rightShiftEqual => ">>="
  | leftParen => "("
  | rightParen => ")"
  | leftBrace => "\x7b"
  | rightBrace => "\x7d"
  | leftBracket => "["
  | rightBracket => "]"
  | semicolon => ";"
  | comma => ","
  | dot => "."
  | arrow => "->"
  | ellipsis => "..."

/-- Every mark, a longer spelling before each shorter one that it starts with. -/
def Mark.byLength : List Mark :=
  [.leftShiftEqual, .rightShiftEqual, .ellipsis,
   .plusPlus, .minusMinus, .leftShift, .rightShift, .lessEqual, .greaterEqual,
   .equalEqual, .bangEqual, .ampersandAmpersand, .pipePipe,
   .plusEqual, .minusEqual, .starEqual, .slashEqual, .percentEqual,
   .ampersandEqual, .pipeEqual, .caretEqual, .arrow,
   .plus, .minus, .star, .slash, .percent, .ampersand, .pipe, .caret, .tilde, .bang,
   .equal, .less, .greater, .question, .colon,
   .leftParen, .rightParen, .leftBrace, .rightBrace, .leftBracket, .rightBracket,
   .semicolon, .comma, .dot]

def Mark.longest? (characters : List Char) : Option Mark :=
  Mark.byLength.find? fun mark => mark.spelling.toList.isPrefixOf characters

/-- What a token is, apart from its place. -/
inductive Lexeme where
  | intLiteral (spelling : String)
  | floatLiteral (spelling : String)
  | charLiteral (spelling : String)
  | stringLiteral (spelling : String)
  | identifier (name : String)
  | keyword (keyword : Keyword)
  | mark (mark : Mark)
  | endOfFile
deriving DecidableEq, Inhabited, Repr

/-- How a lexeme is written; the end of the file is described instead. -/
def Lexeme.spelling : Lexeme → String
  | .intLiteral text => text
  | .floatLiteral text => text
  | .charLiteral text => text
  | .stringLiteral text => text
  | .identifier name => name
  | .keyword word => word.spelling
  | .mark sign => sign.spelling
  | .endOfFile => "end of file"

/-- A lexeme and the source that it covers. -/
structure Token where
  lexeme : Lexeme
  span : Span
deriving DecidableEq, Inhabited, Repr

namespace Token

def endAt (location : Location) : Token := ⟨.endOfFile, .point location⟩

def text (token : Token) : String :=
  "'" ++ token.lexeme.spelling ++ "' at " ++ token.span.start.text

end Token

end InlineMacro
