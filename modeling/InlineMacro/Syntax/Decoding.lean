import InlineMacro.Syntax.Encoding

/-!
# Trees from JSON

Reading a tree from the JSON form in which it is written. A value of another form is no tree, and
there is nothing more to say about it.
-/

set_option autoImplicit false

namespace InlineMacro.Decoding

def part (value : Json) (name : String) : Option Json := value.member? name

def textPart (value : Json) (name : String) : Option String := do (← part value name).string?

def boolPart (value : Json) (name : String) : Option Bool := do (← part value name).bool?

def listPart (value : Json) (name : String) : Option (List Json) := do (← part value name).array?

/-- A part that may be null or missing. -/
def optionalPart {α : Type} (read : Json → Option α) (value : Json) (name : String) :
    Option (Option α) :=
  match value.member? name with
  | none => some none
  | some .null => some none
  | some given => (read given).map some

def form? : Json → Option (String × Json)
  | .string name => some (name, .null)
  | .object [(name, content)] => some (name, content)
  | _ => none

def location (value : Json) : Option Location := do
  some ⟨← textPart value "filename", ← (← part value "line").nat?, ← (← part value "column").nat?⟩

def span (value : Json) : Option Span := do
  some ⟨← location (← part value "start"), ← location (← part value "end")⟩

def qualifiers (value : Json) : Option Qualifiers := do
  some ⟨← boolPart value "is_const", ← boolPart value "is_volatile", ← boolPart value "is_restrict"⟩

def binaryOperator (value : Json) : Option BinaryOperator := do
  let name ← value.string?
  BinaryOperator.all.find? (·.name == name)

def unaryOperator (value : Json) : Option UnaryOperator := do
  let name ← value.string?
  UnaryOperator.all.find? (·.name == name)

def storage (value : Json) : Option StorageClass := do
  let name ← value.string?
  StorageClass.all.find? (·.name == name)

def basicType (name : String) : Option BasicType :=
  BasicType.all.find? (·.name == name)

mutual

def typeWithin : Nat → Json → Option CType
  | 0, _ => none
  | budget + 1, value => do
    let (name, content) ← form? value
    match name with
    | "Pointer" =>
      some (.pointer (← qualifiers (← part content "qualifiers"))
        (← typeWithin budget (← part content "target")))
    | "Array" =>
      some (.array (← typeWithin budget (← part content "element_type"))
        (← optionalPart (exprWithin budget) content "size"))
    | "Function" =>
      some (.function (← typeWithin budget (← part content "return_type"))
        (← (← listPart content "parameters").mapM (parameterWithin budget))
        (← boolPart content "is_variadic"))
    | "Struct" => recordWithin budget .struct content
    | "Union" => recordWithin budget .union content
    | "Enum" =>
      let enumerators ← optionalPart Json.array? content "variants"
      some (.enumeration (← optionalPart Json.string? content "name")
        (← enumerators.mapM fun entries => entries.mapM (enumeratorWithin budget)))
    | "Typedef" => some (.named (← content.string?))
    | "Qualified" =>
      some (.qualified (← qualifiers (← part content "qualifiers"))
        (← typeWithin budget (← part content "inner")))
    | _ => (basicType name).map .basic
termination_by structural budget => budget

def recordWithin : Nat → RecordKind → Json → Option CType
  | 0, _, _ => none
  | budget + 1, kind, content => do
    let fields ← optionalPart Json.array? content "fields"
    some (.record kind (← optionalPart Json.string? content "name")
      (← fields.mapM fun entries => entries.mapM (fieldWithin budget)))
termination_by structural budget => budget

def parameterWithin : Nat → Json → Option Parameter
  | 0, _ => none
  | budget + 1, value => do
    some ⟨← optionalPart Json.string? value "name",
      ← typeWithin budget (← part value "param_type"), ← span (← part value "span")⟩
termination_by structural budget => budget

/-- A member of a structure or a union. -/
def fieldWithin : Nat → Json → Option Field
  | 0, _ => none
  | budget + 1, value => do
    some ⟨← optionalPart Json.string? value "name",
      ← typeWithin budget (← part value "field_type"),
      ← optionalPart (exprWithin budget) value "bit_width"⟩
termination_by structural budget => budget

def enumeratorWithin : Nat → Json → Option Enumerator
  | 0, _ => none
  | budget + 1, value => do
    some ⟨← textPart value "name", ← optionalPart (exprWithin budget) value "value"⟩
termination_by structural budget => budget

/-- An expression, whose parts lie at most as deep as the budget. -/
def exprWithin : Nat → Json → Option Expr
  | 0, _ => none
  | budget + 1, value => do
    let place ← span (← part value "span")
    let (name, content) ← form? (← part value "kind")
    let expr (name : String) : Option Expr := do exprWithin budget (← part content name)
    match name with
    | "IntLiteral" => some (.intLiteral place (← content.string?))
    | "FloatLiteral" => some (.floatLiteral place (← content.string?))
    | "CharLiteral" => some (.charLiteral place (← content.string?))
    | "StringLiteral" => some (.stringLiteral place (← (← content.array?).mapM Json.string?))
    | "Identifier" => some (.identifier place (← textPart content "name"))
    | "Binary" =>
      some (.binary place (← binaryOperator (← part content "op")) (← expr "left")
        (← expr "right"))
    | "Unary" =>
      some (.unary place (← unaryOperator (← part content "op")) (← expr "operand"))
    | "Call" =>
      some (.call place (← expr "function")
        (← (← listPart content "arguments").mapM (exprWithin budget)))
    | "Member" =>
      some (.member place (← expr "object") (← textPart content "member")
        (← boolPart content "is_pointer"))
    | "Conditional" =>
      some (.conditional place (← expr "condition") (← expr "then_expr") (← expr "else_expr"))
    | "Cast" =>
      some (.cast place (← typeWithin budget (← part content "target_type")) (← expr "operand"))
    | "SizeofExpr" => some (.sizeofExpr place (← exprWithin budget content))
    | "SizeofType" => some (.sizeofType place (← typeWithin budget content))
    | "CompoundLiteral" =>
      some (.compoundLiteral place (← typeWithin budget (← part content "type_name"))
        (← initializerWithin budget (← part content "initializer")))
    | "Comma" => some (.comma place (← (← content.array?).mapM (exprWithin budget)))
    | "TypeArgument" => some (.typeArgument place (← typeWithin budget content))
    | _ => none
termination_by structural budget => budget

def initializerWithin : Nat → Json → Option Initializer
  | 0, _ => none
  | budget + 1, value => do
    let place ← span (← part value "span")
    let (name, content) ← form? (← part value "kind")
    match name with
    | "Expression" => some (.expression place (← exprWithin budget content))
    | "List" => some (.list place (← (← content.array?).mapM (initializerWithin budget)))
    | "Designated" =>
      some (.designated place (← (← listPart content "designators").mapM (designatorWithin budget))
        (← initializerWithin budget (← part content "initializer")))
    | _ => none
termination_by structural budget => budget

def designatorWithin : Nat → Json → Option Designator
  | 0, _ => none
  | budget + 1, value => do
    let (name, content) ← form? value
    match name with
    | "Index" => some (.index (← exprWithin budget content))
    | "Member" => some (.member (← content.string?))
    | _ => none
termination_by structural budget => budget

end

def declarationWithin (budget : Nat) (value : Json) : Option Declaration := do
  some {
    name := ← textPart value "name"
    type := ← typeWithin budget (← part value "decl_type")
    storage := ← optionalPart storage value "storage_class"
    isInline := ← boolPart value "is_inline"
    initializer := ← optionalPart (initializerWithin budget) value "initializer"
    span := ← span (← part value "span") }

def statementWithin : Nat → Json → Option Statement
  | 0, _ => none
  | budget + 1, value => do
    let place ← span (← part value "span")
    let (name, content) ← form? (← part value "kind")
    let expr (name : String) : Option Expr := do exprWithin budget (← part content name)
    let statement (name : String) : Option Statement := do
      statementWithin budget (← part content name)
    match name with
    | "Expression" => some (.expression place (← exprWithin budget content))
    | "Compound" => some (.block place (← (← content.array?).mapM (statementWithin budget)))
    | "Declaration" =>
      some (.declaration place
        (← (← listPart content "declarations").mapM (declarationWithin budget)))
    | "TypeDefinition" => some (.typeDefinition place (← typeWithin budget content))
    | "If" =>
      some (.ifElse place (← expr "condition") (← statement "then_stmt")
        (← optionalPart (statementWithin budget) content "else_stmt"))
    | "While" => some (.whileLoop place (← expr "condition") (← statement "body"))
    | "For" =>
      some (.forLoop place (← optionalPart (statementWithin budget) content "init")
        (← optionalPart (exprWithin budget) content "condition")
        (← optionalPart (exprWithin budget) content "update") (← statement "body"))
    | "DoWhile" => some (.doWhile place (← statement "body") (← expr "condition"))
    | "Switch" => some (.switch place (← expr "expression") (← statement "body"))
    | "Case" => some (.caseLabel place (← expr "value") (← statement "statement"))
    | "Default" => some (.defaultLabel place (← statement "statement"))
    | "Break" => some (.breakStatement place)
    | "Continue" => some (.continueStatement place)
    | "Return" =>
      match content with
      | .null => some (.returnStatement place none)
      | _ => some (.returnStatement place (some (← exprWithin budget content)))
    | "Goto" => some (.gotoStatement place (← content.string?))
    | "Label" => some (.labelled place (← textPart content "name") (← statement "statement"))
    | "Empty" => some (.empty place)
    | _ => none

def functionWithin (budget : Nat) (value : Json) : Option Function := do
  some {
    name := ← textPart value "name"
    result := ← typeWithin budget (← part value "return_type")
    parameters := ← (← listPart value "parameters").mapM (parameterWithin budget)
    isVariadic := ← boolPart value "is_variadic"
    body := ← statementWithin budget (← part value "body")
    storage := ← optionalPart storage value "storage_class"
    isInline := ← boolPart value "is_inline"
    span := ← span (← part value "span") }

def itemWithin (budget : Nat) (value : Json) : Option Item := do
  let (name, content) ← form? value
  match name with
  | "Function" => some (.function (← functionWithin budget content))
  | "Declaration" => some (.declaration (← declarationWithin budget content))
  | "TypeDefinition" =>
    some (.typeDefinition (← typeWithin budget (← part content "type_def"))
      (← span (← part content "span")))
  | "Verbatim" => some (.verbatim (← textPart content "text") (← span (← part content "span")))
  | _ => none

def unitWithin (budget : Nat) (value : Json) : Option CompilationUnit := do
  some ⟨← (← listPart value "items").mapM (itemWithin budget), ← span (← part value "span")⟩

end InlineMacro.Decoding

namespace InlineMacro

mutual

/-- How deep the parts of a JSON value lie. -/
def Json.depth : Json → Nat
  | .array items => Json.itemsDepth items + 1
  | .object members => Json.membersDepth members + 1
  | _ => 1

def Json.itemsDepth : List Json → Nat
  | [] => 0
  | item :: items => max (Json.depth item) (Json.itemsDepth items)

def Json.membersDepth : List (String × Json) → Nat
  | [] => 0
  | (_, value) :: members => max (Json.depth value) (Json.membersDepth members)

end

def CType.ofJson? (value : Json) : Option CType := Decoding.typeWithin (value.depth + 1) value

def Expr.ofJson? (value : Json) : Option Expr := Decoding.exprWithin (value.depth + 1) value

def Statement.ofJson? (value : Json) : Option Statement :=
  Decoding.statementWithin (value.depth + 1) value

def Function.ofJson? (value : Json) : Option Function :=
  Decoding.functionWithin (value.depth + 1) value

def CompilationUnit.ofJson? (value : Json) : Option CompilationUnit :=
  Decoding.unitWithin (value.depth + 1) value

end InlineMacro
