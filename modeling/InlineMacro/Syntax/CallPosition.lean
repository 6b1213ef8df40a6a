import InlineMacro.Syntax.Tree

/-!
# Calls in statement position

A call can become the invocation of a macro only where it stands for a statement: on its own, as
what is assigned, as what a cast throws away, or as what is returned. The calls that are arguments
of such a call, directly or through further calls, can be moved in front of it.
-/

set_option autoImplicit false

namespace InlineMacro

/-- Where in a statement its call stands. -/
inductive CallPosition where
  | whole
  | assigned
  | thrownAway
  | returned
deriving DecidableEq, Inhabited, Repr

def Expr.isCall : Expr → Bool
  | .call .. => true
  | _ => false

def Expr.callAt? (position : CallPosition) (value : Expr) : Option (CallPosition × Expr) :=
  if value.isCall then some (position, value) else none

namespace Statement

def callSite? : Statement → Option (CallPosition × Expr)
  | .expression _ (.binary _ .assign _ right) => right.callAt? .assigned
  | .expression _ (.cast _ target operand) =>
    if target.isVoid then operand.callAt? .thrownAway else none
  | .expression _ value => value.callAt? .whole
  | .returnStatement _ (some value) => value.callAt? .returned
  | _ => none

def callPosition? (statement : Statement) : Option CallPosition :=
  statement.callSite?.map Prod.fst

def topCall? (statement : Statement) : Option Expr :=
  statement.callSite?.map Prod.snd

def replaceTopCall (replacement : Expr) : Statement → Statement
  | .expression place (.binary span .assign left right) =>
    .expression place (.binary span .assign left (if right.isCall then replacement else right))
  | .expression place (.cast span target operand) =>
    .expression place
      (.cast span target (if target.isVoid && operand.isCall then replacement else operand))
  | .expression place value => .expression place (if value.isCall then replacement else value)
  | .returnStatement place (some value) =>
    .returnStatement place (some (if value.isCall then replacement else value))
  | statement => statement

end Statement

mutual

def Expr.directCalls : Expr → List Expr
  | .call span function arguments =>
    .call span function arguments :: Expr.listDirectCalls arguments
  | _ => []

def Expr.listDirectCalls : List Expr → List Expr
  | [] => []
  | argument :: arguments => argument.directCalls ++ Expr.listDirectCalls arguments

end

def Statement.positionedCalls (statement : Statement) : List Expr :=
  match statement.topCall? with
  | some call => call.directCalls
  | none => []

end InlineMacro
