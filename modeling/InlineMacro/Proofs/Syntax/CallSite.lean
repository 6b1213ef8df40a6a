import InlineMacro.Proofs.Scope.Calls

/-!
# Statements that stand for a call

The four forms of a statement that stands for a call, each as what is around the call. Another
expression can be put in its place, and the uses of the statement are those of what is around and
those of the call.
-/

set_option autoImplicit false

namespace InlineMacro

theorem CType.uses_unqualified : ∀ type : CType, type.unqualified.uses = type.uses
  | .qualified _ inner => inner.uses_unqualified
  | .basic _ | .pointer _ _ | .array _ _ | .function _ _ _ | .record _ _ _ | .enumeration _ _
  | .named _ => rfl

theorem CType.uses_of_isVoid (type : CType) (isVoid : type.isVoid) : type.uses = [] := by
  rw [← type.uses_unqualified]
  unfold CType.isVoid at isVoid
  split at isVoid
  · next void => rw [void]; rfl
  · cases isVoid

namespace Statement

/-- What is around the call of a statement: the position, the uses beside the call, and the
statement for any expression in its place. -/
inductive IsSite : CallPosition → List Use → (Expr → Statement) → Prop where
  | whole (place : Span) : IsSite .whole [] (.expression place)
  | assigned (place span : Span) (left : Expr) :
      IsSite .assigned left.uses fun call => .expression place (.binary span .assign left call)
  | thrownAway (place span : Span) (target : CType) (isVoid : target.isVoid) :
      IsSite .thrownAway target.uses fun call => .expression place (.cast span target call)
  | returned (place : Span) : IsSite .returned [] fun call => .returnStatement place (some call)

variable {statement : Statement}

theorem isSite_of_callSite? {position : CallPosition} {call : Expr}
    (site : statement.callSite? = some (position, call)) :
    call.isCall ∧ ∃ uses context, IsSite position uses context ∧ statement = context call := by
  have callAt {found : CallPosition} {value : Expr} (here : value.callAt? found = some (position, call)) :
      value.isCall ∧ found = position ∧ value = call := by
    simpa [Expr.callAt?] using here
  unfold callSite? at site
  split at site
  · obtain ⟨isCall, rfl, rfl⟩ := callAt site
    exact ⟨isCall, _, _, .assigned _ _ _, rfl⟩
  · split at site
    · next isVoid =>
      obtain ⟨isCall, rfl, rfl⟩ := callAt site
      exact ⟨isCall, _, _, .thrownAway _ _ _ isVoid, rfl⟩
    · cases site
  · obtain ⟨isCall, rfl, rfl⟩ := callAt site
    exact ⟨isCall, _, _, .whole _, rfl⟩
  · obtain ⟨isCall, rfl, rfl⟩ := callAt site
    exact ⟨isCall, _, _, .returned _, rfl⟩
  · cases site

namespace IsSite

variable {position : CallPosition} {uses : List Use} {context : Expr → Statement}

theorem isPlain (site : IsSite position uses context) (call : Expr) : (context call).isPlain := by
  cases site <;> rfl

variable {call : Expr}

theorem callSite? (site : IsSite position uses context) (isCall : call.isCall) :
    (context call).callSite? = some (position, call) := by
  cases call with
  | call span function arguments =>
    cases site with
    | thrownAway place span target isVoid =>
      simp [Statement.callSite?, Expr.callAt?, isVoid, Expr.isCall]
    | _ => rfl
  | _ => cases isCall

theorem replaceTopCall (site : IsSite position uses context) (isCall : call.isCall)
    (replacement : Expr) : (context call).replaceTopCall replacement = context replacement := by
  cases call with
  | call span function arguments =>
    cases site with
    | thrownAway place span target isVoid =>
      simp [Statement.replaceTopCall, isVoid, Expr.isCall]
    | _ => rfl
  | _ => cases isCall

theorem ownUses (site : IsSite position uses context) (isCall : call.isCall) :
    (context call).ownUses = Use.elsewhere uses ++ call.placedUses (.call position) := by
  cases call with
  | call span function arguments =>
    cases site with
    | thrownAway place span target isVoid =>
      simp [Statement.ownUses, Expr.statementUses, isVoid]
    | _ => rfl
  | _ => cases isCall

theorem ownUses_ofName (site : IsSite position uses context)
    (needed : position = .assigned ∨ position = .returned) (name : String) :
    (context (.ofName name)).ownUses = Use.elsewhere (uses ++ [.mentioned name]) := by
  cases site with
  | assigned place span left =>
    simp [Statement.ownUses, Expr.statementUses, Expr.ofName, Expr.placedUses, Expr.uses]
  | returned place => rfl
  | whole | thrownAway => rcases needed with impossible | impossible <;> cases impossible

theorem uses_eq_nil (site : IsSite position uses context) (notAssigned : position ≠ .assigned) :
    uses = [] := by
  cases site with
  | whole place => rfl
  | thrownAway place span target isVoid => exact target.uses_of_isVoid isVoid
  | assigned => exact absurd rfl notAssigned
  | returned => rfl

end IsSite

theorem elsewhere_of_callSite?_eq_none
    (noSite : statement.callSite? = none) {name : String} {place : UsePlace}
    (member : (.called name, place) ∈ statement.ownUses) : place = .elsewhere := by
  have noCalls := statement.positioned_ownUses
  rw [positionedCalls, topCall?, noSite] at noCalls
  have unplaced := List.filterMap_eq_nil_iff.mp noCalls _ member
  simpa [Use.positionedCallee?, Use.callee?] using unplaced

theorem occurrences_of_plain {σ : Type} (scoping : Scoping σ)
    (plain : statement.isPlain) (inBlock : Bool) (scope : σ) : statement.occurrences scoping inBlock scope =
      Occurrence.placedAt scope inBlock statement.ownUses := by
  cases statement with
  | expression span value => rfl
  | returnStatement span value => cases value <;> rfl
  | _ => cases plain

end Statement

end InlineMacro
