import InlineMacro.Parser.Specifiers

/-!
# Declarators

A declarator is read from the name outwards: what stands behind the name applies before what
stands in front of it, and parentheses apply first of all. Each production takes the parsers of its
parts as arguments; `Parser.Grammar` ties them together.
-/

set_option autoImplicit false

namespace InlineMacro.Parser

/-- One layer of a derived type. -/
inductive Derivation where
  | pointer (qualifiers : Qualifiers)
  | array (size : Option Expr)
  | function (parameters : List Parameter) (isVariadic : Bool)

def Derivation.apply (type : CType) : Derivation → CType
  | pointer qualifiers => .pointer qualifiers type
  | array size => .array type size
  | function parameters isVariadic => .function type parameters isVariadic

/-- A declarator: the declared name, and the layers from the base type outwards. -/
structure Declarator where
  name : Option String := none
  derivations : List Derivation := []

def Declarator.typeFrom (declarator : Declarator) (base : CType) : CType :=
  declarator.derivations.foldl Derivation.apply base

/-- The brackets of an array. The words that C99 allows in them are taken and say nothing. -/
def arraySize (assignment : Parse Expr) : Parse (Option Expr) := do
  discard (acceptKeyword .kwStatic)
  discard qualifiers
  let state ← get
  let size ←
    if state.isAtMark .rightBracket then pure none
    else if state.isAtMark .star && state.secondLexeme? == some (.mark .rightBracket) then do
      discard advance
      pure none
    else some <$> assignment
  expectMark .rightBracket "array declarator"
  pure size

/-- One parameter; `none` for the ellipsis, behind which no parameter follows. -/
def parameterStep (specifiers : Parse Specifiers) (declarator : Parse Declarator) :
    Parse (Option (Option Parameter × Bool)) := do
  if ← acceptMark .ellipsis then pure (some (none, false))
  else
    let start ← location
    let given ← specifiers
    let declared ← declarator
    let parameter := ⟨declared.name, declared.typeFrom given.base, ← spanFrom start⟩
    return some (some parameter, ← acceptMark .comma)

/-- A parameter list behind its opening parenthesis. -/
def parameterList (specifiers : Parse Specifiers) (declarator : Parse Declarator)
    (budget : Nat) : Parse Derivation := do
  if ← acceptMark .rightParen then pure (.function [] false)
  else
    let state ← get
    match state.lexeme? with
    | some (.identifier name) =>
      if !state.isTypedef name then
        fault state.location (.unsupported "Old-style (K&R) parameter list")
    | _ => pure ()
    let entries ← collectWithin (parameterStep specifiers declarator) budget
    expectMark .rightParen "parameter list"
    pure (.function (entries.filterMap id) (entries.any Option.isNone))

/-- What can stand behind the name: brackets or a parameter list. -/
def derivationStep (assignment : Parse Expr) (parameters : Parse Derivation) :
    Parse (Option (Derivation × Bool)) := do
  if ← acceptMark .leftBracket then return some (.array (← arraySize assignment), true)
  else if ← acceptMark .leftParen then return some (← parameters, true)
  else pure none

def pointerStep : Parse (Option (Derivation × Bool)) := do
  if ← acceptMark .star then return some (.pointer (← qualifiers), true)
  else pure none

def declaratorCore (nested : Parse Declarator) : Parse Declarator := do
  if (← get).isAtNestedDeclarator then
    discard advance
    let inner ← nested
    expectMark .rightParen "parenthesized declarator"
    pure inner
  else return { name := ← acceptIdentifier }

def declaratorForm (nested : Parse Declarator) (assignment : Parse Expr)
    (parameters : Parse Derivation) (budget : Nat) : Parse Declarator := do
  let pointers ← collectWithin pointerStep budget
  let core ← declaratorCore nested
  let suffixes ← collectWithin (derivationStep assignment parameters) budget
  pure ⟨core.name, pointers ++ suffixes.reverse ++ core.derivations⟩

def typeNameForm (specifiers : Parse Specifiers) (declarator : Parse Declarator) :
    Parse CType := do
  let start ← location
  let given ← specifiers
  if given.storage.isSome then fault start .storageInTypeName
  let declared ← declarator
  match declared.name with
  | some name => fault start (.nameInTypeName name)
  | none => pure (declared.typeFrom given.base)

/-! ## Types with bodies -/

/-- One field of a declaration with several; only the first repeats the body of its type. -/
def fieldForm (base : CType) (declarator : Parse Declarator) (conditional : Parse Expr) :
    Parse Field := do
  let declared ← if (← get).isAtMark .colon then pure {} else declarator
  let width ← if ← acceptMark .colon then some <$> conditional else pure none
  pure ⟨declared.name, declared.typeFrom base, width⟩

def furtherField (base : CType) (declarator : Parse Declarator) (conditional : Parse Expr) :
    Parse (Option (Field × Bool)) := do
  if ← acceptMark .comma then
    return some (← fieldForm base.withoutBodies declarator conditional, true)
  else pure none

/-- The fields that one declaration in the body of a record declares. -/
def fieldStep (specifiers : Parse Specifiers) (declarator : Parse Declarator)
    (conditional : Parse Expr) (budget : Nat) : Parse (Option (List Field × Bool)) := do
  let state ← get
  if state.isAtMark .rightBrace || state.isAtEnd then pure none
  else if ← acceptMark .semicolon then pure (some ([], true))
  else
    let base := (← specifiers).base
    if ← acceptMark .semicolon then pure (some ([⟨none, base, none⟩], true))
    else
      let first ← fieldForm base declarator conditional
      let others ← collectWithin (furtherField base declarator conditional) budget
      expectMark .semicolon "struct field"
      pure (some (first :: others, true))

def recordForm (kind : RecordKind) (specifiers : Parse Specifiers) (declarator : Parse Declarator)
    (conditional : Parse Expr) (budget : Nat) : Parse CType := do
  let tag ← acceptIdentifier
  if ← acceptMark .leftBrace then
    let fields ← collectWithin (fieldStep specifiers declarator conditional budget) budget
    expectMark .rightBrace "struct definition"
    pure (.record kind tag (some fields.flatten))
  else pure (.record kind tag none)

def enumeratorStep (conditional : Parse Expr) : Parse (Option (Enumerator × Bool)) := do
  let state ← get
  if state.isAtMark .rightBrace || state.isAtEnd then pure none
  else
    let name ← expectIdentifier "enum definition"
    let value ← if ← acceptMark .equal then some <$> conditional else pure none
    return some (⟨name, value⟩, ← acceptMark .comma)

def enumerationForm (conditional : Parse Expr) (budget : Nat) : Parse CType := do
  let tag ← acceptIdentifier
  if ← acceptMark .leftBrace then
    let enumerators ← collectWithin (enumeratorStep conditional) budget
    expectMark .rightBrace "enum definition"
    pure (.enumeration tag (some enumerators))
  else pure (.enumeration tag none)

end InlineMacro.Parser
