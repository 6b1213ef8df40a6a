import InlineMacro.Proofs.Scope.Occurrence

/-!
# Uses and their places

Places add nothing to uses and take nothing away, and the calls that are not placed elsewhere are
the calls in statement position.
-/

set_option autoImplicit false

namespace InlineMacro

def Use.callee? : Use → Option String
  | called name => some name
  | mentioned _ => none

def Use.positionedCallee? (placed : Use × UsePlace) : Option String :=
  if placed.2 = .elsewhere then none else placed.1.callee?

def Expr.calleeUses (function : Expr) : List Use :=
  match function.identifier? with
  | some name => [.called name]
  | none => function.uses

def Expr.placedCalleeUses (place : UsePlace) (function : Expr) : List (Use × UsePlace) :=
  match function.identifier? with
  | some name => [(.called name, place)]
  | none => Use.elsewhere function.uses

theorem Expr.uses_call (span : Span) (function : Expr) (arguments : List Expr) :
    (Expr.call span function arguments).uses = function.calleeUses ++ Expr.listUses arguments := by
  cases function <;> rfl

theorem Expr.placedUses_call (place : UsePlace) (span : Span) (function : Expr) (arguments : List Expr) :
    (Expr.call span function arguments).placedUses place =
      function.placedCalleeUses place ++ Expr.listPlacedUses place.ofArguments arguments := by
  cases function <;> rfl

theorem Expr.placedUses_of_not_call {value : Expr} (noCall : value.isCall = false)
    (place : UsePlace) : value.placedUses place = Use.elsewhere value.uses := by
  cases value <;> first | rfl | cases noCall

@[simp] theorem Use.elsewhere_append (first second : List Use) :
    Use.elsewhere (first ++ second) = Use.elsewhere first ++ Use.elsewhere second :=
  List.map_append

@[simp] theorem Use.map_fst_elsewhere (uses : List Use) : (Use.elsewhere uses).map Prod.fst = uses := by
  simp [Use.elsewhere, Function.comp_def]

theorem Expr.map_fst_placedCalleeUses (place : UsePlace) (function : Expr) :
    (function.placedCalleeUses place).map Prod.fst = function.calleeUses := by
  unfold Expr.placedCalleeUses Expr.calleeUses
  cases function.identifier? with
  | none => exact Use.map_fst_elsewhere _
  | some name => rfl

theorem Expr.placedCalleeUses_elsewhere (function : Expr) :
    function.placedCalleeUses .elsewhere = Use.elsewhere function.calleeUses := by
  unfold Expr.placedCalleeUses Expr.calleeUses
  cases function.identifier? <;> rfl

mutual

theorem Expr.map_fst_placedUses (place : UsePlace) :
    ∀ value : Expr, (value.placedUses place).map Prod.fst = value.uses
  | .call span function arguments => by
    rw [Expr.placedUses_call, List.map_append, Expr.map_fst_placedCalleeUses,
      Expr.map_fst_listPlacedUses place.ofArguments arguments, Expr.uses_call]
  | .intLiteral .. | .floatLiteral .. | .charLiteral .. | .stringLiteral .. | .identifier ..
  | .binary .. | .unary .. | .member .. | .conditional .. | .cast .. | .sizeofExpr ..
  | .sizeofType .. | .compoundLiteral .. | .comma .. | .typeArgument .. => by
    rw [Expr.placedUses_of_not_call rfl, Use.map_fst_elsewhere]

theorem Expr.map_fst_listPlacedUses (place : UsePlace) :
    ∀ values : List Expr, (Expr.listPlacedUses place values).map Prod.fst = Expr.listUses values
  | [] => rfl
  | value :: values => by
    simp only [Expr.listPlacedUses, Expr.listUses, List.map_append,
      Expr.map_fst_placedUses place value, Expr.map_fst_listPlacedUses place values]

end

theorem Expr.map_fst_statementUses (value : Expr) : value.statementUses.map Prod.fst = value.uses := by
  unfold Expr.statementUses
  split
  · simp [Expr.map_fst_placedUses, Expr.uses]
  · simp [Expr.map_fst_placedUses, Expr.uses]
  · exact Expr.map_fst_placedUses _ _

mutual

theorem Expr.placedUses_elsewhere : ∀ value : Expr, value.placedUses .elsewhere = Use.elsewhere value.uses
  | .call span function arguments => by
    rw [Expr.placedUses_call, Expr.uses_call, Use.elsewhere_append, Expr.placedCalleeUses_elsewhere]
    exact congrArg (_ ++ ·) (Expr.listPlacedUses_elsewhere arguments)
  | .intLiteral .. | .floatLiteral .. | .charLiteral .. | .stringLiteral .. | .identifier ..
  | .binary .. | .unary .. | .member .. | .conditional .. | .cast .. | .sizeofExpr ..
  | .sizeofType .. | .compoundLiteral .. | .comma .. | .typeArgument .. =>
    Expr.placedUses_of_not_call rfl _

theorem Expr.listPlacedUses_elsewhere : ∀ values : List Expr,
      Expr.listPlacedUses .elsewhere values = Use.elsewhere (Expr.listUses values)
  | [] => rfl
  | value :: values => by
    rw [Expr.listPlacedUses, Expr.listUses, Use.elsewhere_append,
      Expr.placedUses_elsewhere value, Expr.listPlacedUses_elsewhere values]

end

mutual

theorem Expr.place_of_mem_placedUses {place : UsePlace} {placed : Use × UsePlace} :
    ∀ value : Expr, placed ∈ value.placedUses place →
      placed.2 = place ∨ placed.2 = place.ofArguments ∨ placed.2 = .elsewhere
  | .call span function arguments => by
    intro member
    rw [Expr.placedUses_call, List.mem_append] at member
    rcases member with member | member
    · unfold Expr.placedCalleeUses at member
      cases named : function.identifier? with
      | none =>
        rw [named] at member
        obtain ⟨use, -, rfl⟩ := List.mem_map.mp member
        exact .inr (.inr rfl)
      | some name =>
        rw [named, List.mem_singleton] at member
        exact .inl (congrArg Prod.snd member)
    · have inArguments := Expr.place_of_mem_listPlacedUses arguments member
      cases place <;> simp_all [UsePlace.ofArguments]
  | .intLiteral .. | .floatLiteral .. | .charLiteral .. | .stringLiteral .. | .identifier ..
  | .binary .. | .unary .. | .member .. | .conditional .. | .cast .. | .sizeofExpr ..
  | .sizeofType .. | .compoundLiteral .. | .comma .. | .typeArgument .. => by
    intro member
    rw [Expr.placedUses_of_not_call rfl] at member
    obtain ⟨use, -, rfl⟩ := List.mem_map.mp member
    exact .inr (.inr rfl)

theorem Expr.place_of_mem_listPlacedUses {place : UsePlace} {placed : Use × UsePlace} :
    ∀ values : List Expr, placed ∈ Expr.listPlacedUses place values →
      placed.2 = place ∨ placed.2 = place.ofArguments ∨ placed.2 = .elsewhere
  | [] => fun member => absurd member List.not_mem_nil
  | value :: values => by
    intro member
    rcases List.mem_append.mp member with member | member
    · exact Expr.place_of_mem_placedUses value member
    · exact Expr.place_of_mem_listPlacedUses values member

end

theorem Expr.placedUses_of_callee? {call : Expr} {name : String} (calls : call.callee? = some name) :
    ∃ span function arguments, call = .call span function arguments ∧
      function.identifier? = some name ∧ ∀ place, call.placedUses place =
        (.called name, place) :: Expr.listPlacedUses place.ofArguments arguments := by
  cases call with
  | call span function arguments =>
    refine ⟨span, function, arguments, rfl, calls, fun place => ?_⟩
    have named : function.identifier? = some name := calls
    rw [Expr.placedUses_call, Expr.placedCalleeUses, named]
    rfl
  | _ => cases calls

/-! ## Calls in statement position -/

theorem Use.positioned_elsewhere (uses : List Use) :
    (Use.elsewhere uses).filterMap Use.positionedCallee? = [] := by
  simp [Use.elsewhere, Use.positionedCallee?, List.filterMap_map, Function.comp_def]

theorem UsePlace.ofArguments_ne_elsewhere {place : UsePlace} (placed : place ≠ .elsewhere) :
    place.ofArguments ≠ .elsewhere := by
  cases place with
  | call => simp [UsePlace.ofArguments]
  | argument => simp [UsePlace.ofArguments]
  | elsewhere => exact absurd rfl placed

mutual

theorem Expr.positioned_placedUses {place : UsePlace} (placed : place ≠ .elsewhere) :
    ∀ value : Expr, (value.placedUses place).filterMap Use.positionedCallee? =
      value.directCalls.filterMap Expr.callee?
  | .call span function arguments => by
    have others := Expr.positioned_listPlacedUses (UsePlace.ofArguments_ne_elsewhere placed) arguments
    rw [Expr.placedUses_call, List.filterMap_append, others, Expr.directCalls, List.filterMap_cons]
    unfold Expr.placedCalleeUses
    cases named : function.identifier? with
    | none => simp [Expr.callee?, named, Use.positioned_elsewhere]
    | some name => simp [Expr.callee?, named, Use.positionedCallee?, placed, Use.callee?]
  | .intLiteral .. | .floatLiteral .. | .charLiteral .. | .stringLiteral .. | .identifier ..
  | .binary .. | .unary .. | .member .. | .conditional .. | .cast .. | .sizeofExpr ..
  | .sizeofType .. | .compoundLiteral .. | .comma .. | .typeArgument .. => by
    rw [Expr.placedUses_of_not_call rfl, Use.positioned_elsewhere]
    rfl

theorem Expr.positioned_listPlacedUses {place : UsePlace} (placed : place ≠ .elsewhere) :
    ∀ values : List Expr, (Expr.listPlacedUses place values).filterMap Use.positionedCallee? =
      (Expr.listDirectCalls values).filterMap Expr.callee?
  | [] => rfl
  | value :: values => by
    simp only [Expr.listPlacedUses, Expr.listDirectCalls, List.filterMap_append,
      Expr.positioned_placedUses placed value, Expr.positioned_listPlacedUses placed values]

end

theorem Expr.directCalls_of_not_call {value : Expr} (noCall : value.isCall = false) :
    value.directCalls = [] := by
  cases value <;> first | rfl | cases noCall

/-- The uses of a statement that can become statements of their own: only an expression and a
return have any. -/
def Statement.ownUses : Statement → List (Use × UsePlace)
  | .expression _ value => value.statementUses
  | .returnStatement _ (some value) => value.placedUses (.call .returned)
  | _ => []

private def siteCalls (site : Option (CallPosition × Expr)) : List Expr :=
  (site.map fun found => found.2.directCalls).getD []

private theorem positionedCalls_eq_siteCalls (statement : Statement) :
    statement.positionedCalls = siteCalls statement.callSite? := by
  unfold Statement.positionedCalls Statement.topCall? siteCalls
  cases statement.callSite? <;> rfl

private theorem positioned_callAt (position : CallPosition) (value : Expr) :
    (value.placedUses (.call position)).filterMap Use.positionedCallee? =
      (siteCalls (value.callAt? position)).filterMap Expr.callee? := by
  rw [Expr.positioned_placedUses (by simp)]
  unfold siteCalls Expr.callAt?
  cases isCall : value.isCall with
  | false => simp [Expr.directCalls_of_not_call isCall]
  | true => simp

private theorem positioned_statementUses (span : Span) (value : Expr) :
    value.statementUses.filterMap Use.positionedCallee? =
      (siteCalls (Statement.expression span value).callSite?).filterMap Expr.callee? := by
  unfold Expr.statementUses Statement.callSite?
  split
  · rw [List.filterMap_append, Use.positioned_elsewhere, positioned_callAt]
    rfl
  · next target operand =>
    rw [List.filterMap_append, Use.positioned_elsewhere]
    cases void : target.isVoid with
    | false =>
      rw [if_neg Bool.false_ne_true, Expr.placedUses_elsewhere, Use.positioned_elsewhere]
      simp [void, siteCalls]
    | true =>
      rw [if_pos rfl, positioned_callAt]
      simp [void]
  · next notAssigned notCast =>
    rw [positioned_callAt]
    split
    · next same => cases same; exact absurd rfl (notAssigned _ _ _)
    · next same => cases same; exact absurd rfl (notCast _ _ _)
    · next same => cases same; rfl
    · next same => cases same
    · next _ _ other _ => exact absurd rfl (other _ _)

theorem Statement.positioned_ownUses (statement : Statement) :
    statement.ownUses.filterMap Use.positionedCallee? = statement.positionedCalls.filterMap Expr.callee? := by
  rw [positionedCalls_eq_siteCalls]
  cases statement with
  | expression span value => exact positioned_statementUses span value
  | returnStatement span value =>
    cases value with
    | none => rfl
    | some value => exact positioned_callAt .returned value
  | _ => rfl

end InlineMacro
