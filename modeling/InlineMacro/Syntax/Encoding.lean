import InlineMacro.Json
import InlineMacro.Syntax.Tree

/-!
# Trees as JSON

Every part of a tree is an object of its fields; a choice between forms is the form's name, or an
object with that name as its only member. Operators, basic types and storage classes are told by
their names.
-/

set_option autoImplicit false

namespace InlineMacro

def BinaryOperator.name : BinaryOperator → String
  | add => "Add"
  | sub => "Sub"
  | mul => "Mul"
  | div => "Div"
  | mod => "Mod"
  | bitAnd => "BitAnd"
  | bitOr => "BitOr"
  | bitXor => "BitXor"
  | leftShift => "LeftShift"
  | rightShift => "RightShift"
  | logicalAnd => "LogicalAnd"
  | logicalOr => "LogicalOr"
  | equal => "Equal"
  | notEqual => "NotEqual"
  | less => "Less"
  | greater => "Greater"
  | lessEqual => "LessEqual"
  | greaterEqual => "GreaterEqual"
  | assign => "Assign"
  | addAssign => "AddAssign"
  | subAssign => "SubAssign"
  | mulAssign => "MulAssign"
  | divAssign => "DivAssign"
  | modAssign => "ModAssign"
  | bitAndAssign => "BitAndAssign"
  | bitOrAssign => "BitOrAssign"
  | bitXorAssign => "BitXorAssign"
  | leftShiftAssign => "LeftShiftAssign"
  | rightShiftAssign => "RightShiftAssign"
  | index => "Index"

def UnaryOperator.name : UnaryOperator → String
  | plus => "Plus"
  | minus => "Minus"
  | bitNot => "BitNot"
  | logicalNot => "LogicalNot"
  | dereference => "Dereference"
  | addressOf => "AddressOf"
  | preIncrement => "PreIncrement"
  | postIncrement => "PostIncrement"
  | preDecrement => "PreDecrement"
  | postDecrement => "PostDecrement"

def BasicType.name : BasicType → String
  | void => "Void"
  | bool => "Bool"
  | char => "Char"
  | signedChar => "SignedChar"
  | unsignedChar => "UnsignedChar"
  | short => "Short"
  | unsignedShort => "UnsignedShort"
  | int => "Int"
  | unsignedInt => "UnsignedInt"
  | long => "Long"
  | unsignedLong => "UnsignedLong"
  | longLong => "LongLong"
  | unsignedLongLong => "UnsignedLongLong"
  | float => "Float"
  | double => "Double"
  | longDouble => "LongDouble"

def BasicType.all : List BasicType :=
  [void, bool, char, signedChar, unsignedChar, short, unsignedShort, int, unsignedInt, long,
   unsignedLong, longLong, unsignedLongLong, float, double, longDouble]

def RecordKind.name : RecordKind → String
  | struct => "Struct"
  | union => "Union"

def StorageClass.name : StorageClass → String
  | auto => "Auto"
  | static => "Static"
  | external => "Extern"
  | register => "Register"
  | typeAlias => "Typedef"

def StorageClass.all : List StorageClass := [auto, static, external, register, typeAlias]

namespace Encoding

def form (name : String) (content : Json) : Json := .object [(name, content)]

def fields (name : String) (parts : List (String × Json)) : Json := form name (.object parts)

def optionalText : Option String → Json
  | none => .null
  | some text => .string text

def location (location : Location) : Json :=
  .object [("filename", .string location.file), ("line", .ofNat location.line),
    ("column", .ofNat location.column)]

def span (span : Span) : Json :=
  .object [("start", location span.start), ("end", location span.stop)]

def spanned (kind : Json) (place : Span) : Json :=
  .object [("kind", kind), ("span", span place)]

def qualifiers (qualifiers : Qualifiers) : Json :=
  .object [("is_const", .bool qualifiers.isConst), ("is_volatile", .bool qualifiers.isVolatile),
    ("is_restrict", .bool qualifiers.isRestrict)]

mutual

def type : CType → Json
  | .basic kind => .string kind.name
  | .pointer own target => fields "Pointer" [("target", type target), ("qualifiers", qualifiers own)]
  | .array element none => fields "Array" [("element_type", type element), ("size", .null)]
  | .array element (some size) =>
    fields "Array" [("element_type", type element), ("size", expr size)]
  | .function result entries isVariadic =>
    fields "Function" [("return_type", type result), ("parameters", .array (parameters entries)),
      ("is_variadic", .bool isVariadic)]
  | .record kind tag none => fields kind.name [("name", optionalText tag), ("fields", .null)]
  | .record kind tag (some entries) =>
    fields kind.name [("name", optionalText tag), ("fields", .array (recordFields entries))]
  | .enumeration tag none => fields "Enum" [("name", optionalText tag), ("variants", .null)]
  | .enumeration tag (some entries) =>
    fields "Enum" [("name", optionalText tag), ("variants", .array (enumerators entries))]
  | .named name => form "Typedef" (.string name)
  | .qualified own inner => fields "Qualified" [("qualifiers", qualifiers own), ("inner", type inner)]

def parameters : List Parameter → List Json
  | [] => []
  | ⟨name, declared, place⟩ :: rest =>
    .object [("name", optionalText name), ("param_type", type declared), ("span", span place)] ::
      parameters rest

def recordFields : List Field → List Json
  | [] => []
  | ⟨name, declared, none⟩ :: rest =>
    .object [("name", optionalText name), ("field_type", type declared), ("bit_width", .null)] ::
      recordFields rest
  | ⟨name, declared, some width⟩ :: rest =>
    .object [("name", optionalText name), ("field_type", type declared),
      ("bit_width", expr width)] :: recordFields rest

def enumerators : List Enumerator → List Json
  | [] => []
  | ⟨name, none⟩ :: rest =>
    .object [("name", .string name), ("value", .null)] :: enumerators rest
  | ⟨name, some value⟩ :: rest =>
    .object [("name", .string name), ("value", expr value)] :: enumerators rest

def expr : Expr → Json
  | .intLiteral place spelling => spanned (form "IntLiteral" (.string spelling)) place
  | .floatLiteral place spelling => spanned (form "FloatLiteral" (.string spelling)) place
  | .charLiteral place spelling => spanned (form "CharLiteral" (.string spelling)) place
  | .stringLiteral place pieces =>
    spanned (form "StringLiteral" (.array (pieces.map .string))) place
  | .identifier place name => spanned (fields "Identifier" [("name", .string name)]) place
  | .binary place operator left right =>
    spanned (fields "Binary" [("op", .string operator.name), ("left", expr left),
      ("right", expr right)]) place
  | .unary place operator operand =>
    spanned (fields "Unary" [("op", .string operator.name), ("operand", expr operand)]) place
  | .call place function arguments =>
    spanned (fields "Call" [("function", expr function), ("arguments", .array (exprs arguments))])
      place
  | .member place object name throughPointer =>
    spanned (fields "Member" [("object", expr object), ("member", .string name),
      ("is_pointer", .bool throughPointer)]) place
  | .conditional place condition thenValue elseValue =>
    spanned (fields "Conditional" [("condition", expr condition), ("then_expr", expr thenValue),
      ("else_expr", expr elseValue)]) place
  | .cast place target operand =>
    spanned (fields "Cast" [("target_type", type target), ("operand", expr operand)]) place
  | .sizeofExpr place operand => spanned (form "SizeofExpr" (expr operand)) place
  | .sizeofType place operand => spanned (form "SizeofType" (type operand)) place
  | .compoundLiteral place named value =>
    spanned (fields "CompoundLiteral" [("type_name", type named),
      ("initializer", initializer value)]) place
  | .comma place parts => spanned (form "Comma" (.array (exprs parts))) place
  | .typeArgument place argument => spanned (form "TypeArgument" (type argument)) place

def exprs : List Expr → List Json
  | [] => []
  | part :: parts => expr part :: exprs parts

def initializer : Initializer → Json
  | .expression place value => spanned (form "Expression" (expr value)) place
  | .list place items => spanned (form "List" (.array (initializers items))) place
  | .designated place chain value =>
    spanned (fields "Designated" [("designators", .array (designators chain)),
      ("initializer", initializer value)]) place

def initializers : List Initializer → List Json
  | [] => []
  | item :: items => initializer item :: initializers items

def designators : List Designator → List Json
  | [] => []
  | .index value :: rest => form "Index" (expr value) :: designators rest
  | .member name :: rest => form "Member" (.string name) :: designators rest

end

def optionalExpr (value : Option Expr) : Json := .ofOption (value.map expr)

def storage (storage : Option StorageClass) : Json :=
  .ofOption (storage.map fun storage => .string storage.name)

def declaration (declaration : Declaration) : Json :=
  .object [("name", .string declaration.name), ("decl_type", type declaration.type),
    ("storage_class", storage declaration.storage), ("is_inline", .bool declaration.isInline),
    ("initializer", .ofOption (declaration.initializer.map initializer)),
    ("span", span declaration.span)]

mutual

def statement : Statement → Json
  | .expression place value => spanned (form "Expression" (expr value)) place
  | .block place entries => spanned (form "Compound" (.array (statements entries))) place
  | .declaration place declarations =>
    spanned (fields "Declaration" [("declarations", .array (declarations.map declaration))]) place
  | .typeDefinition place defined => spanned (form "TypeDefinition" (type defined)) place
  | .ifElse place condition thenBranch elseBranch =>
    spanned (fields "If" [("condition", expr condition), ("then_stmt", statement thenBranch),
      ("else_stmt", optionalStatement elseBranch)]) place
  | .whileLoop place condition body =>
    spanned (fields "While" [("condition", expr condition), ("body", statement body)]) place
  | .forLoop place init condition update body =>
    spanned (fields "For" [("init", optionalStatement init), ("condition", optionalExpr condition),
      ("update", optionalExpr update), ("body", statement body)]) place
  | .doWhile place body condition =>
    spanned (fields "DoWhile" [("body", statement body), ("condition", expr condition)]) place
  | .switch place subject body =>
    spanned (fields "Switch" [("expression", expr subject), ("body", statement body)]) place
  | .caseLabel place value labelled =>
    spanned (fields "Case" [("value", expr value), ("statement", statement labelled)]) place
  | .defaultLabel place labelled =>
    spanned (fields "Default" [("statement", statement labelled)]) place
  | .breakStatement place => spanned (.string "Break") place
  | .continueStatement place => spanned (.string "Continue") place
  | .returnStatement place value => spanned (form "Return" (optionalExpr value)) place
  | .gotoStatement place label => spanned (form "Goto" (.string label)) place
  | .labelled place label labelled =>
    spanned (fields "Label" [("name", .string label), ("statement", statement labelled)]) place
  | .empty place => spanned (.string "Empty") place

def optionalStatement : Option Statement → Json
  | none => .null
  | some entry => statement entry

def statements : List Statement → List Json
  | [] => []
  | entry :: entries => statement entry :: statements entries

end

def function (function : Function) : Json :=
  .object [("name", .string function.name), ("return_type", type function.result),
    ("parameters", .array (parameters function.parameters)),
    ("is_variadic", .bool function.isVariadic), ("body", statement function.body),
    ("storage_class", storage function.storage), ("is_inline", .bool function.isInline),
    ("span", span function.span)]

def item : Item → Json
  | .function definition => form "Function" (function definition)
  | .declaration declared => form "Declaration" (declaration declared)
  | .typeDefinition defined place =>
    fields "TypeDefinition" [("type_def", type defined), ("span", span place)]
  | .verbatim text place => fields "Verbatim" [("text", .string text), ("span", span place)]

def unit (unit : CompilationUnit) : Json :=
  .object [("items", .array (unit.items.map item)), ("span", span unit.span)]

end Encoding

end InlineMacro
