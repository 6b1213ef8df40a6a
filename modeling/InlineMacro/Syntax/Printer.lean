import InlineMacro.Syntax.Tree
import InlineMacro.Text.Lines

/-!
# From trees to text

Each statement prints as lines, one level of four blanks deeper for each block around it. An
expression is put in parentheses exactly where it binds less tightly than its place asks for. A
declarator is written inside out: the name first, then what the type derives it from, and the
specifiers in front at the end.
-/

set_option autoImplicit false

namespace InlineMacro

def StorageClass.keyword : StorageClass → String
  | auto => "auto"
  | static => "static"
  | external => "extern"
  | register => "register"
  | typeAlias => "typedef"

/-- How a type without parts is written. -/
def BasicType.specifier : BasicType → String
  | void => "void"
  | bool => "_Bool"
  | char => "char"
  | signedChar => "signed char"
  | unsignedChar => "unsigned char"
  | short => "short"
  | unsignedShort => "unsigned short"
  | int => "int"
  | unsignedInt => "unsigned int"
  | long => "long"
  | unsignedLong => "unsigned long"
  | longLong => "long long"
  | unsignedLongLong => "unsigned long long"
  | float => "float"
  | double => "double"
  | longDouble => "long double"

def RecordKind.keyword : RecordKind → String
  | struct => "struct"
  | union => "union"

def Qualifiers.text (qualifiers : Qualifiers) : String :=
  Text.join " "
    ((if qualifiers.isConst then ["const"] else []) ++
      (if qualifiers.isVolatile then ["volatile"] else []) ++
      (if qualifiers.isRestrict then ["restrict"] else []))

namespace Printer

def indentation (depth : Nat) : String := Text.repeated "    " depth

def line (depth : Nat) (text : String) : String := indentation depth ++ text

def parenthesized (needed : Bool) (text : String) : String :=
  if needed then "(" ++ text ++ ")" else text

/-- Two operator signs must not run together: a blank parts them if the operand's text starts with
the last character of the operator. -/
def signBefore (symbol operand : String) : String :=
  match symbol.toList.getLast?, operand.toList.head? with
  | some last, some first => if last = first then symbol ++ " " ++ operand else symbol ++ operand
  | _, _ => symbol ++ operand

def specifiersAnd (parts : String × String) : String :=
  if parts.2.isEmpty then parts.1 else parts.1 ++ " " ++ parts.2

def pointerText (qualifiers : Qualifiers) (inner : String) : String :=
  if qualifiers.isEmpty then "*" ++ inner
  else if inner.isEmpty then "*" ++ qualifiers.text
  else "*" ++ qualifiers.text ++ " " ++ inner

def isSuffixType (type : CType) : Bool := type.isArray || type.isFunction

def tagText (keyword : String) (tag : Option String) : String :=
  match tag with
  | none => keyword
  | some name => keyword ++ " " ++ name

def bodyText (depth : Nat) (entries : List String) : String :=
  " \x7b\n" ++ String.join (entries.map fun entry => indentation (depth + 1) ++ entry ++ "\n") ++
    indentation depth ++ "\x7d"

def withCommas : List String → List String
  | [] => []
  | [entry] => [entry]
  | entry :: entries => (entry ++ ",") :: withCommas entries

/-- A basic specifier with the qualifiers in front that no derivation has taken. -/
def qualifiedSpecifier (pending : Option Qualifiers) (specifier : String) : String :=
  match pending with
  | none => specifier
  | some qualifiers => qualifiers.text ++ " " ++ specifier

mutual

/-- An expression in a place that asks for at least the given precedence. -/
def exprText (depth minimum : Nat) : Expr → String
  | .intLiteral _ spelling => spelling
  | .floatLiteral _ spelling => spelling
  | .charLiteral _ spelling => spelling
  | .stringLiteral _ pieces => Text.join " " pieces
  | .identifier _ name => name
  | .binary _ operator left right =>
    if operator = .index then
      parenthesized (Precedence.suffixed < minimum)
        (exprText depth Precedence.suffixed left ++ "[" ++ exprText depth 0 right ++ "]")
    else if operator.isAssignment then
      parenthesized (Precedence.assignment < minimum)
        (exprText depth Precedence.unary left ++ " " ++ operator.symbol ++ " " ++
          exprText depth Precedence.assignment right)
    else
      parenthesized (operator.precedence < minimum)
        (exprText depth operator.precedence left ++ " " ++ operator.symbol ++ " " ++
          exprText depth (operator.precedence + 1) right)
  | .unary _ operator operand =>
    if operator.followsOperand then
      parenthesized (Precedence.suffixed < minimum)
        (exprText depth Precedence.suffixed operand ++ operator.symbol)
    else
      parenthesized (Precedence.unary < minimum)
        (signBefore operator.symbol (exprText depth Precedence.unary operand))
  | .call _ function arguments =>
    parenthesized (Precedence.suffixed < minimum)
      (exprText depth Precedence.suffixed function ++ "(" ++
        Text.join ", " (exprTexts depth arguments) ++ ")")
  | .member _ object name throughPointer =>
    parenthesized (Precedence.suffixed < minimum)
      (exprText depth Precedence.suffixed object ++ (if throughPointer then "->" else ".") ++ name)
  | .conditional _ condition thenValue elseValue =>
    parenthesized (Precedence.conditional < minimum)
      (exprText depth Precedence.logicalOr condition ++ " ? " ++ exprText depth 0 thenValue ++
        " : " ++ exprText depth Precedence.conditional elseValue)
  | .cast _ target operand =>
    parenthesized (Precedence.unary < minimum)
      ("(" ++ specifiersAnd (declaratorParts depth none "" target) ++ ") " ++
        exprText depth Precedence.unary operand)
  | .sizeofExpr _ operand =>
    parenthesized (Precedence.unary < minimum) ("sizeof(" ++ exprText depth 0 operand ++ ")")
  | .sizeofType _ type =>
    parenthesized (Precedence.unary < minimum)
      ("sizeof(" ++ specifiersAnd (declaratorParts depth none "" type) ++ ")")
  | .compoundLiteral _ type initializer =>
    parenthesized (Precedence.suffixed < minimum)
      ("(" ++ specifiersAnd (declaratorParts depth none "" type) ++ ")" ++
        initializerText depth initializer)
  | .comma _ parts =>
    parenthesized (Precedence.comma < minimum) (Text.join ", " (exprTexts depth parts))
  | .typeArgument _ type => specifiersAnd (declaratorParts depth none "" type)

def exprTexts (depth : Nat) : List Expr → List String
  | [] => []
  | part :: parts => exprText depth Precedence.assignment part :: exprTexts depth parts

def initializerText (depth : Nat) : Initializer → String
  | .expression _ value => exprText depth Precedence.assignment value
  | .list _ items =>
    match items with
    | [] => "\x7b \x7d"
    | items => "\x7b " ++ Text.join ", " (initializerTexts depth items) ++ " \x7d"
  | .designated _ designators initializer =>
    designatorsText depth designators ++ " = " ++ initializerText depth initializer

def initializerTexts (depth : Nat) : List Initializer → List String
  | [] => []
  | item :: items => initializerText depth item :: initializerTexts depth items

def designatorsText (depth : Nat) : List Designator → String
  | [] => ""
  | .index index :: rest => "[" ++ exprText depth 0 index ++ "]" ++ designatorsText depth rest
  | .member name :: rest => "." ++ name ++ designatorsText depth rest

/-- The specifiers of a type and the declarator of `inner` in it. Pending qualifiers stand on the
type itself: a pointer takes them, an array hands them to its element, and a function or a second
layer of qualifiers drops them. -/
def declaratorParts (depth : Nat) (pending : Option Qualifiers) (inner : String) :
    CType → String × String
  | .pointer own target =>
    let text := pointerText (own.merge (pending.getD {})) inner
    declaratorParts depth none (parenthesized (isSuffixType target) text) target
  | .array element none => declaratorParts depth pending (inner ++ "[]") element
  | .array element (some size) =>
    declaratorParts depth pending (inner ++ "[" ++ exprText depth 0 size ++ "]") element
  | .function result parameters isVariadic =>
    let texts := parameterTexts depth parameters ++ (if isVariadic then ["..."] else [])
    declaratorParts depth none (inner ++ "(" ++ Text.join ", " texts ++ ")") result
  | .qualified qualifiers type => declaratorParts depth (some qualifiers) inner type
  | .basic kind => (qualifiedSpecifier pending kind.specifier, inner)
  | .named name => (qualifiedSpecifier pending name, inner)
  | .record kind tag none => (qualifiedSpecifier pending (tagText kind.keyword tag), inner)
  | .record kind tag (some fields) =>
    (qualifiedSpecifier pending
      (tagText kind.keyword tag ++ bodyText depth (fieldTexts (depth + 1) fields)), inner)
  | .enumeration tag none => (qualifiedSpecifier pending (tagText "enum" tag), inner)
  | .enumeration tag (some enumerators) =>
    (qualifiedSpecifier pending
      (tagText "enum" tag ++ bodyText depth (withCommas (enumeratorTexts depth enumerators))),
      inner)

def parameterTexts (depth : Nat) : List Parameter → List String
  | [] => []
  | ⟨name, type, _⟩ :: rest =>
    specifiersAnd (declaratorParts depth none (name.getD "") type) :: parameterTexts depth rest

def fieldTexts (depth : Nat) : List Field → List String
  | [] => []
  | ⟨name, type, none⟩ :: rest =>
    (specifiersAnd (declaratorParts depth none (name.getD "") type) ++ ";") ::
      fieldTexts depth rest
  | ⟨name, type, some width⟩ :: rest =>
    (specifiersAnd (declaratorParts depth none (name.getD "") type) ++ " : " ++
      exprText depth Precedence.conditional width ++ ";") :: fieldTexts depth rest

def enumeratorTexts (depth : Nat) : List Enumerator → List String
  | [] => []
  | ⟨name, none⟩ :: rest => name :: enumeratorTexts depth rest
  | ⟨name, some value⟩ :: rest =>
    (name ++ " = " ++ exprText depth Precedence.conditional value) :: enumeratorTexts depth rest

end

def declaratorText (depth : Nat) (type : CType) (name : String) : String :=
  specifiersAnd (declaratorParts depth none name type)

def storageText : Option StorageClass → String
  | none => ""
  | some storage => storage.keyword ++ " "

def inlineText (isInline : Bool) : String := if isInline then "inline " else ""

def initialValueText (depth : Nat) : Option Initializer → String
  | none => ""
  | some initializer => " = " ++ initializerText depth initializer

def declarationText (depth : Nat) (declaration : Declaration) : String :=
  storageText declaration.storage ++ inlineText declaration.isInline ++
    declaratorText depth declaration.type declaration.name ++
    initialValueText depth declaration.initializer ++ ";"

def loopDeclarationTexts (depth : Nat) : List Declaration → List String
  | [] => []
  | first :: others =>
    (storageText first.storage ++ declaratorText depth first.type first.name ++
      initialValueText depth first.initializer) ::
    others.map fun other =>
      (declaratorParts depth none other.name other.type).2 ++
        initialValueText depth other.initializer

/-- What stands before the first semicolon of a loop's head, with it. -/
def loopInitText (depth : Nat) : Option Statement → String
  | some (.declaration _ declarations) =>
    Text.join ", " (loopDeclarationTexts depth declarations) ++ ";"
  | some (.expression _ value) => exprText depth 0 value ++ ";"
  | _ => ";"

def loopPartText (depth : Nat) : Option Expr → String
  | none => ""
  | some value => " " ++ exprText depth 0 value

def bodyDepth (depth : Nat) (body : Statement) : Nat :=
  if body.isBlock then depth else depth + 1

mutual

/-- The lines of a statement. The lead is what a line with `if` starts with: a chain of branches
stays on one level. -/
def statementLines (depth : Nat) (lead : String) : Statement → List String
  | .block _ statements =>
    line depth "\x7b" :: (statementsLines (depth + 1) statements ++ [line depth "\x7d"])
  | .expression _ value => [line depth (exprText depth 0 value ++ ";")]
  | .declaration _ declarations =>
    declarations.map fun declaration => line depth (declarationText depth declaration)
  | .typeDefinition _ type => [line depth (declaratorText depth type "" ++ ";")]
  | .ifElse _ condition thenBranch none =>
    line depth (lead ++ "if (" ++ exprText depth 0 condition ++ ")") ::
      statementLines (bodyDepth depth thenBranch) "" thenBranch
  | .ifElse _ condition thenBranch (some elseBranch) =>
    line depth (lead ++ "if (" ++ exprText depth 0 condition ++ ")") ::
      (statementLines (bodyDepth depth thenBranch) "" thenBranch ++
        (if elseBranch.isBranch then statementLines depth "else " elseBranch
          else line depth "else" :: statementLines (bodyDepth depth elseBranch) "" elseBranch))
  | .whileLoop _ condition body =>
    line depth ("while (" ++ exprText depth 0 condition ++ ")") ::
      statementLines (bodyDepth depth body) "" body
  | .forLoop _ init condition update body =>
    line depth ("for (" ++ loopInitText depth init ++ loopPartText depth condition ++ ";" ++
      loopPartText depth update ++ ")") :: statementLines (bodyDepth depth body) "" body
  | .doWhile _ body condition =>
    line depth "do" :: (statementLines (bodyDepth depth body) "" body ++
      [line depth ("while (" ++ exprText depth 0 condition ++ ");")])
  | .switch _ subject body =>
    line depth ("switch (" ++ exprText depth 0 subject ++ ")") ::
      statementLines (bodyDepth depth body) "" body
  | .caseLabel _ value statement =>
    line depth ("case " ++ exprText depth Precedence.conditional value ++ ":") ::
      statementLines (depth + 1) "" statement
  | .defaultLabel _ statement => line depth "default:" :: statementLines (depth + 1) "" statement
  | .breakStatement _ => [line depth "break;"]
  | .continueStatement _ => [line depth "continue;"]
  | .returnStatement _ none => [line depth "return;"]
  | .returnStatement _ (some value) => [line depth ("return " ++ exprText depth 0 value ++ ";")]
  | .gotoStatement _ label => [line depth ("goto " ++ label ++ ";")]
  | .labelled _ label statement =>
    if statement.isEmpty then [line depth (label ++ ": ;")]
    else line depth (label ++ ":") :: statementLines depth "" statement
  | .empty _ => [line depth ";"]

def statementsLines (depth : Nat) : List Statement → List String
  | [] => []
  | statement :: statements =>
    statementLines depth "" statement ++ statementsLines depth statements

end

def unlines (lines : List String) : String :=
  String.join (lines.map fun text => text ++ "\n")

def headerText (function : Function) : String :=
  storageText function.storage ++ inlineText function.isInline ++
    declaratorText 0 function.type function.name

def functionLines (function : Function) : List String :=
  headerText function :: statementLines 0 "" function.body

end Printer

/-! ## Whole texts -/

def Expr.text (expr : Expr) : String := Printer.exprText 0 0 expr

def CType.text (type : CType) : String := Printer.declaratorText 0 type ""

def CType.declare (type : CType) (name : String) : String := Printer.declaratorText 0 type name

def Statement.text (statement : Statement) : String :=
  Printer.unlines (Printer.statementLines 0 "" statement)

namespace Function

def text (function : Function) : String :=
  Printer.unlines (Printer.functionLines function)

def bodyLines (function : Function) : List String :=
  Text.lines (Printer.unlines (Printer.statementsLines 1 function.statements))

end Function

def Item.text : Item → String
  | function definition => definition.text ++ "\n"
  | declaration declared => Printer.declarationText 0 declared ++ "\n"
  | typeDefinition type _ => type.text ++ ";\n"
  | verbatim text _ => if Text.endsLine text then text else text ++ "\n"

def CompilationUnit.text (unit : CompilationUnit) : String :=
  String.join (unit.items.map Item.text)

def withoutEmptyStatements (text : String) : String :=
  let kept := Text.join "\n" ((Text.lines text).filter (· != ";"))
  if Text.endsLine text then kept ++ "\n" else kept

end InlineMacro
