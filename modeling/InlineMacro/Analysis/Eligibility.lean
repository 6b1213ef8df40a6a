import InlineMacro.Analysis.Census
import InlineMacro.Association
import InlineMacro.Syntax.Node

/-!
# Which functions become macros

A function becomes a macro if its specifiers are selected, if nothing in it is beyond a macro, and
if every use of it is a call in a position where the call can become a statement. For any other
function the first reason against it is kept.
-/

set_option autoImplicit false

namespace InlineMacro

/-! ## Selecting by specifiers -/

namespace InlineMask

def staticInline : Nat := 1

def inlineOnly : Nat := 2

def staticOnly : Nat := 4

end InlineMask

/-! ## Reasons against a function -/

/-- Why a function is left as it is. -/
inductive Rejection where
  | notSelected
  | variadic
  | recursive
  | unsupported (construct : String)
  | addressTaken
  | calledInExpression
deriving DecidableEq, Inhabited, Repr

def Rejection.text : Rejection → String
  | notSelected => "specifiers not selected by the inline mask"
  | variadic => "variadic"
  | recursive => "recursive"
  | unsupported construct => "contains " ++ construct
  | addressTaken => "address taken"
  | calledInExpression => "called in a non-statement position"

namespace Function

/-- The bit for the specifiers of a function; none if it is neither static nor inline. -/
def specifierBits (function : Function) : Nat :=
  match function.storage == some .static, function.isInline with
  | true, true => InlineMask.staticInline
  | false, true => InlineMask.inlineOnly
  | true, false => InlineMask.staticOnly
  | false, false => 0

def unsupportedIn : Node → Option String
  | .statement (.gotoStatement ..) => some "goto"
  | .statement (.labelled ..) => some "a label"
  | .declaration declaration =>
    if declaration.storage == some .static then
      some ("static local '" ++ declaration.name ++ "'")
    else none
  | _ => none

def unsupportedConstruct? (function : Function) : Option String :=
  function.body.nodes.findSome? unsupportedIn

def hasUnnamedParameter (function : Function) : Bool :=
  !function.hasNoParameters && function.parameters.any fun parameter => parameter.name.isNone

/-- The first reason against making a function a macro. -/
def rejection? (mask : Nat) (census : Census) (function : Function) : Option Rejection :=
  if function.specifierBits &&& mask = 0 then some .notSelected
  else if function.isVariadic then some .variadic
  else if function.hasUnnamedParameter then some (.unsupported "an unnamed parameter")
  else
    match function.unsupportedConstruct? with
    | some construct => some (.unsupported construct)
    | none =>
      if census.isRecursive function.name then some .recursive
      else if census.isMentioned function.name then some .addressTaken
      else if census.isCalledInExpression function.name then some .calledInExpression
      else none

end Function

/-- Which functions of a unit become macros, the types of those that return something, and why the
others do not. -/
structure Eligibility where
  eligible : List String
  results : Association CType
  rejected : List (String × Rejection)

namespace Eligibility

def isEligible (eligibility : Eligibility) (name : String) : Bool :=
  eligibility.eligible.contains name

end Eligibility

/-- Decides for each function of a unit whether it becomes a macro. -/
def CompilationUnit.eligibility (mask : Nat) (unit : CompilationUnit) : Eligibility :=
  let census := unit.census
  let accepted := unit.functions.filter fun function => (function.rejection? mask census).isNone
  { eligible := accepted.map Function.name
    results := .ofPairs ((accepted.filter fun function => !function.result.isVoid).map fun function =>
      (function.name, function.result))
    rejected := unit.functions.filterMap fun function =>
      (function.rejection? mask census).map fun rejection => (function.name, rejection) }

end InlineMacro
