import InlineMacro.Proofs.Pass.RenameCalls

/-!
# Where invocations are made

A visible call of a macro's function becomes an invocation where it is a whole statement of a
block, is thrown away there or returned. The tokens of the invocations come from the registry in
their order, and nothing is left over if every visible call stands in such a place.
-/

set_option autoImplicit false

namespace InlineMacro

/-! ## Invocations in a tree -/

/-- An invocation: the macro, and the spelling of the namespace it is given. -/
structure Invocation where
  macroName : String
  space : String
deriving DecidableEq, Repr

def Node.invocation? (isMacro : String → Bool) : Node → Option Invocation
  | .expression (.call _ (.identifier _ name) (.identifier _ space :: _)) =>
    if isMacro name then some ⟨name, space⟩ else none
  | _ => none

def Node.invocations (isMacro : String → Bool) (nodes : List Node) : List Invocation :=
  nodes.filterMap (Node.invocation? isMacro)

def Function.invocations (isMacro : String → Bool) (function : Function) : List Invocation :=
  Node.invocations isMacro function.body.nodes

section Invocations

variable {isMacro : String → Bool}

@[simp] theorem Node.invocations_append (first second : List Node) :
    Node.invocations isMacro (first ++ second) =
      Node.invocations isMacro first ++ Node.invocations isMacro second :=
  List.filterMap_append

theorem Node.invocations_of_callees {nodes : List Node}
    (others : ∀ name ∈ Node.callees nodes, isMacro name = false) : Node.invocations isMacro nodes = [] := by
  unfold Node.invocations
  rw [List.filterMap_eq_nil_iff]
  intro node member
  unfold Node.invocation?
  split
  · next span place name spacePlace space arguments =>
    have called : name ∈ Node.callees nodes := List.mem_filterMap.mpr ⟨_, member, rfl⟩
    simp [others name called]
  · rfl

end Invocations

/-! ## Where an invocation can stand -/

namespace Occurrence

def isInvocable (occurrence : Occurrence Bindings) : Bool :=
  occurrence.inBlock && (occurrence.place == .call .whole || occurrence.place == .call .thrownAway ||
    occurrence.place == .call .returned)

def isInvoked (occurrence : Occurrence Bindings) : Bool :=
  occurrence.isInvocable && !occurrence.scope.hides occurrence.use.name

def invoked (calls : List (Occurrence Bindings)) : List String :=
  (calls.filter isInvoked).map fun occurrence => occurrence.use.name

def Settled (calls : List (Occurrence Bindings)) : Prop :=
  ∀ occurrence ∈ calls, occurrence.scope.hides occurrence.use.name = false → occurrence.isInvocable

@[simp] theorem invoked_append (first second : List (Occurrence Bindings)) :
    invoked (first ++ second) = invoked first ++ invoked second := by
  simp [invoked]

theorem Settled.left {first second : List (Occurrence Bindings)} (settled : Settled (first ++ second)) :
    Settled first := fun occurrence member => settled occurrence (List.mem_append_left _ member)

theorem Settled.right {first second : List (Occurrence Bindings)}
    (settled : Settled (first ++ second)) : Settled second :=
  fun occurrence member => settled occurrence (List.mem_append_right _ member)

theorem invoked_of_not_invocable {calls : List (Occurrence Bindings)}
    (none : ∀ occurrence ∈ calls, occurrence.isInvocable = false) : invoked calls = [] := by
  unfold invoked
  rw [List.map_eq_nil_iff, List.filter_eq_nil_iff]
  intro occurrence member
  simp [isInvoked, none occurrence member]

end Occurrence

/-! ## Nodes of statements -/

section Nodes

variable {isMacro : String → Bool}

@[simp] theorem Node.invocations_statement (statement : Statement) (nodes : List Node) :
    Node.invocations isMacro (.statement statement :: nodes) = Node.invocations isMacro nodes := rfl

@[simp] theorem Node.invocations_nil : Node.invocations isMacro [] = [] := rfl

def Node.Unnamed (isMacro : String → Bool) (nodes : List Node) : Prop :=
  ∀ name ∈ Node.callees nodes, isMacro name = false

theorem Node.unnamed_append {first second : List Node} : Node.Unnamed isMacro (first ++ second) ↔
      Node.Unnamed isMacro first ∧ Node.Unnamed isMacro second := by
  unfold Node.Unnamed
  simp only [Node.callees_append, List.mem_append, or_imp, forall_and]

theorem Node.unnamed_statement {statement : Statement} {nodes : List Node} :
    Node.Unnamed isMacro (.statement statement :: nodes) ↔ Node.Unnamed isMacro nodes := Iff.rfl

/-- What calls of macros are given: a namespace and arguments, in parentheses where they need them. -/
def Node.Protected (isMacro : String → Bool) (nodes : List Node) : Prop :=
  ∀ span place name given, .expression (.call span (.identifier place name) given) ∈ nodes → isMacro name →
    ∃ space, ∃ arguments : List Expr, given = .ofName space :: arguments.map Expr.protectedArgument

theorem Node.Unnamed.isProtected {nodes : List Node} (unnamed : Node.Unnamed isMacro nodes) :
    Node.Protected isMacro nodes := by
  intro span place name given member isMacroName
  have other := unnamed name (List.mem_filterMap.mpr ⟨_, member, rfl⟩)
  rw [isMacroName] at other
  cases other

theorem Expr.callees_protectedArgument (argument : Expr) :
    Node.callees argument.protectedArgument.nodes = Node.callees argument.nodes := by
  unfold Expr.protectedArgument
  split
  · change Node.callees (argument.nodes ++ []) = _
    rw [List.append_nil]
  · rfl

theorem Expr.callees_protectedArguments (arguments : List Expr) :
    Node.callees (Expr.listNodes (arguments.map Expr.protectedArgument)) =
      Node.callees (Expr.listNodes arguments) := by
  induction arguments with
  | nil => rfl
  | cons first rest ih =>
    simp only [List.map_cons, Expr.listNodes, Node.callees_append, ih, Expr.callees_protectedArgument]

end Nodes

theorem Statement.declared_cases (statement : Statement) :
    statement.declared = [] ∨ ∃ span given, statement = .declaration span given := by
  cases statement with
  | declaration span given => exact .inr ⟨span, given, rfl⟩
  | _ => exact .inl rfl

theorem Statement.callees_nodes_of_plain {statement : Statement} (plain : statement.isPlain) :
    Node.callees statement.nodes = Use.callees (statement.ownUses.map Prod.fst) := by
  cases statement with
  | expression span value =>
    rw [ownUses, Expr.map_fst_statementUses]
    exact value.callees_nodes
  | returnStatement span value =>
    cases value with
    | none => rfl
    | some value =>
      rw [ownUses, Expr.map_fst_placedUses]
      exact value.callees_nodes
  | _ => cases plain

theorem optionalExprs_callees (first second : Option Expr) :
    Node.callees (optionalNodes Expr.nodes first ++ optionalNodes Expr.nodes second) =
      Use.callees (optionalUses Expr.uses first ++ optionalUses Expr.uses second) := by
  rw [Node.callees_append, Use.callees_append, optionalExpr_callees, optionalExpr_callees]

/-! ## Making invocations -/

def Expansion.space (expansion : Expansion) (token : String) : String :=
  match expansion.enclosing with
  | some namespaceName => namespaceName ++ " ## " ++ token
  | none => token

def Expansion.invocation (expansion : Expansion) (name token : String) : Invocation :=
  ⟨(expansion.macros.find? name).getD name, expansion.space token⟩

namespace Invoking

open Occurrence

variable {expansion : Expansion} {isMacro : String → Bool}

/-- What making invocations in a part of a function does: the calls that become invocations get
their tokens from the registry, and none is left over if all that are visible can become one. -/
structure Invokes (expansion : Expansion) (isMacro : String → Bool)
    (calls : List (Occurrence Bindings)) (nodes : List Node) (state after : InvocationState) :
    Prop where
  tokens : ∃ tokens, Registry.Numbers "ns" state.registry after.registry tokens ∧
    tokens.length = (invoked calls).length ∧
    Node.invocations isMacro nodes = List.zipWith expansion.invocation (invoked calls) tokens
  stray : Settled calls → after.stray = state.stray
  isProtected : Node.Protected isMacro nodes

namespace Invokes

variable {calls : List (Occurrence Bindings)} {nodes : List Node}

theorem nothing {state after : InvocationState}
    (none : invoked calls = []) (others : Node.Unnamed isMacro nodes)
    (registry : after.registry = state.registry) (stray : Settled calls → after.stray = state.stray) :
    Invokes expansion isMacro calls nodes state after := by
  refine ⟨⟨[], registry ▸ .nothing _, by rw [none], ?_⟩, stray, others.isProtected⟩
  rw [Node.invocations_of_callees others]
  exact List.zipWith_nil_right.symm

theorem append {first second third : InvocationState} {otherCalls : List (Occurrence Bindings)}
    {otherNodes : List Node} (former : Invokes expansion isMacro calls nodes first second)
    (latter : Invokes expansion isMacro otherCalls otherNodes second third) :
    Invokes expansion isMacro (calls ++ otherCalls) (nodes ++ otherNodes) first third := by
  obtain ⟨tokens, issues, length, invocations⟩ := former.tokens
  obtain ⟨others, otherIssues, otherLength, otherInvocations⟩ := latter.tokens
  refine ⟨⟨tokens ++ others, issues.trans otherIssues, ?_, ?_⟩, fun settled => ?_, ?_⟩
  · rw [List.length_append, length, otherLength, invoked_append, List.length_append]
  · rw [Node.invocations_append, invocations, otherInvocations, invoked_append,
      List.zipWith_append length.symm]
  · exact (latter.stray settled.right).trans (former.stray settled.left)
  · exact fun span place name given member => (List.mem_append.mp member).elim
      (former.isProtected span place name given) (latter.isProtected span place name given)

theorem inside {state after : InvocationState} (invokes : Invokes expansion isMacro calls nodes state after)
    (node : Node) (noCall : ∀ value, node ≠ .expression value) :
    Invokes expansion isMacro calls (node :: nodes) state after := by
  obtain ⟨tokens, stray, isProtected⟩ := invokes
  refine ⟨?_, stray, fun span place name given member => isProtected span place name given
    ((List.mem_cons.mp member).resolve_left fun same => noCall _ same.symm)⟩
  cases node with
  | expression value => exact absurd rfl (noCall value)
  | _ => exact tokens

theorem statement {state after : InvocationState}
    (invokes : Invokes expansion isMacro calls nodes state after) (entry : Statement) :
    Invokes expansion isMacro calls (.statement entry :: nodes) state after := invokes.inside _ nofun

end Invokes

variable {scope : Bindings}

theorem scan_ensures {calls : List (Occurrence Bindings)} {nodes : List Node}
    (unnamed : Node.Unnamed isMacro nodes) (none : invoked calls = [])
    (seen : ∀ name ∈ Node.callees nodes, expansion.macros.contains name →
      ∃ occurrence ∈ calls, occurrence.use.name = name ∧ occurrence.scope = scope)
    (state : InvocationState) (covers : state.locals.Covers expansion.macros.contains scope) :
    Ensures (scan expansion nodes) state fun _ after =>
      after.locals = state.locals ∧ Invokes expansion isMacro calls nodes state after := by
  refine ⟨rfl, .nothing none unnamed rfl fun settled => ?_⟩
  have nothingFound : nodes.findSome? (strayText? expansion state.locals) = Option.none := by
    rw [List.findSome?_eq_none_iff]
    intro node member
    unfold strayText?
    split
    · next value =>
      cases called : value.callee? with
      | none => simp [isMacroCall, called]
      | some name =>
        cases isKnown : expansion.macros.contains name with
        | false => simp [isMacroCall, called, isKnown]
        | true =>
          have found : name ∈ Node.callees nodes := List.mem_filterMap.mpr ⟨_, member, called⟩
          obtain ⟨occurrence, among, rfl, rfl⟩ := seen name found isKnown
          have hides : occurrence.scope.hides occurrence.use.name = true := by
            by_contra visible
            rw [Bool.not_eq_true] at visible
            have invocable := settled occurrence among visible
            have isInvoked : occurrence.use.name ∈ invoked calls :=
              List.mem_map_of_mem (List.mem_filter.mpr
                ⟨among, by simp [Occurrence.isInvoked, invocable, visible]⟩)
            rw [none] at isInvoked
            cases isInvoked
          simp [isMacroCall, called, covers.covers _ isKnown hides]
    · rfl
  change state.stray.or (nodes.findSome? (strayText? expansion state.locals)) = state.stray
  rw [nothingFound, Option.or_none]

theorem invoked_elsewhereAt (known : String → Bool) (scope : Bindings) (uses : List Use) :
    invoked (callsAmong known (elsewhereAt scope uses)) = [] := by
  refine invoked_of_not_invocable fun occurrence member => ?_
  obtain ⟨use, -, rfl⟩ := List.mem_map.mp (List.mem_filter.mp member).1
  rfl

theorem scan_elsewhere {nodes : List Node} {uses : List Use}
    (same : Node.callees nodes = Use.callees uses) (unnamed : Node.Unnamed isMacro nodes)
    (state : InvocationState) (covers : state.locals.Covers expansion.macros.contains scope) :
    Ensures (scan expansion nodes) state fun _ after =>
      after.locals = state.locals ∧ Invokes expansion isMacro
        (callsAmong expansion.macros.contains (elsewhereAt scope uses)) nodes state after := by
  refine scan_ensures unnamed (invoked_elsewhereAt _ scope uses) ?_ state covers
  intro name called isKnown
  rw [same, Use.mem_callees] at called
  refine ⟨⟨.called name, .elsewhere, false, scope⟩, ?_, rfl, rfl⟩
  exact mem_callsAmong.mpr ⟨List.mem_map_of_mem called, name, rfl, isKnown⟩

/-! ## One invocation -/

theorem token_ensures (state : InvocationState) : Ensures (token expansion) state fun spelling after =>
      ∃ name, spelling = expansion.space name ∧ after.locals = state.locals ∧
        after.stray = state.stray ∧ Registry.Numbers "ns" state.registry after.registry [name] := by
  have numbers := Registry.fresh_numbers "ns" state.registry
  refine .bindGet (.bindSet ?_)
  unfold Expansion.space
  cases expansion.enclosing with
  | some namespaceName => exact .pure ⟨_, rfl, rfl, rfl, numbers⟩
  | none => exact .pure ⟨_, rfl, rfl, rfl, numbers⟩

theorem invoked_arguments (known : String → Bool) (scope : Bindings) (arguments : List Expr) :
    invoked (callsAmong known (placedAt scope true (Expr.listPlacedUses .argument arguments))) = [] := by
  refine invoked_of_not_invocable fun occurrence member => ?_
  obtain ⟨placed, among, rfl⟩ := List.mem_map.mp (List.mem_filter.mp member).1
  rcases Expr.place_of_mem_listPlacedUses arguments among with same | same | same <;>
    simp [Occurrence.isInvocable, same, UsePlace.ofArguments]

variable {position : CallPosition} {state : InvocationState}

theorem invoke_ensures {span place : Span} {name : String} {arguments : List Expr}
    (named : ∀ name macroName, expansion.macros.find? name = some macroName → isMacro macroName)
    (isKnown : expansion.macros.contains name) (visible : scope.hides name = false)
    (invocable : position = .whole ∨ position = .thrownAway ∨ position = .returned)
    (unnamed : Node.Unnamed isMacro (Expr.listNodes arguments))
    (covers : state.locals.Covers expansion.macros.contains scope) :
    Ensures (invoke expansion (.call span (.identifier place name) arguments)) state
      fun result after => after.locals = state.locals ∧ result.isCall ∧
        Invokes expansion isMacro (callsAmong expansion.macros.contains (placedAt scope true
          ((Expr.call span (.identifier place name) arguments).placedUses (.call position))))
          result.nodes state after := by
  have argumentCalls := invoked_arguments expansion.macros.contains scope arguments
  have scanned : Ensures (scan expansion (Expr.listNodes arguments)) state fun _ after =>
      after.locals = state.locals ∧ Invokes expansion isMacro (callsAmong expansion.macros.contains
          (placedAt scope true (Expr.listPlacedUses .argument arguments)))
        (Expr.listNodes arguments) state after := by
    refine scan_ensures unnamed argumentCalls ?_ state covers
    intro callee called calleeKnown
    rw [Expr.callees_listNodes, Use.mem_callees, ← Expr.map_fst_listPlacedUses .argument] at called
    obtain ⟨placed, among, same⟩ := List.mem_map.mp called
    refine ⟨⟨placed.1, placed.2, true, scope⟩, ?_, by rw [same]; rfl, rfl⟩
    exact mem_callsAmong.mpr ⟨List.mem_map_of_mem among, callee, same, calleeKnown⟩
  unfold invoke
  refine scanned.bind fun _ middle holds => ?_
  obtain ⟨locals, scans⟩ := holds
  obtain ⟨macroName, found⟩ := Option.isSome_iff_exists.mp isKnown
  rw [found]
  refine (token_ensures middle).bind fun spelling after holds => ?_
  obtain ⟨tokenName, rfl, tokenLocals, tokenStray, issues⟩ := holds
  refine .pure ⟨tokenLocals.trans locals, rfl, ?_⟩
  have calls : callsAmong expansion.macros.contains (placedAt scope true
      ((Expr.call span (.identifier place name) arguments).placedUses (.call position))) =
      ⟨.called name, .call position, true, scope⟩ :: callsAmong expansion.macros.contains
        (placedAt scope true (Expr.listPlacedUses .argument arguments)) := by
    simp [Expr.placedUses, callsAmong, placedAt, Use.isCallOf, isKnown, UsePlace.ofArguments]
  have isInvoked : isInvoked ⟨.called name, .call position, true, scope⟩ = true := by
    rcases invocable with rfl | rfl | rfl <;>
      simp [Occurrence.isInvoked, Occurrence.isInvocable, Use.name, visible]
  have names : invoked (⟨.called name, .call position, true, scope⟩ :: callsAmong expansion.macros.contains
        (placedAt scope true (Expr.listPlacedUses .argument arguments))) = [name] := by
    unfold invoked at argumentCalls ⊢
    rw [List.filter_cons_of_pos isInvoked, List.map_cons, argumentCalls]
    rfl
  obtain ⟨tokens, scanIssues, scanLength, -⟩ := scans.tokens
  rw [argumentCalls, List.length_nil, List.length_eq_zero_iff] at scanLength
  subst scanLength
  rw [calls]
  have others : Node.Unnamed isMacro (Expr.listNodes (arguments.map Expr.protectedArgument)) := by
    unfold Node.Unnamed
    rw [Expr.callees_protectedArguments]
    exact unnamed
  refine ⟨⟨[tokenName], scanIssues.trans issues, by rw [names]; rfl, ?_⟩, fun settled => ?_, ?_⟩
  · have here : Node.invocation? isMacro (.expression (.call span (.identifier place macroName)
        (.ofName (expansion.space tokenName) :: arguments.map Expr.protectedArgument))) =
        some (expansion.invocation name tokenName) := by
      simp [Node.invocation?, Expr.ofName, named name macroName found, Expansion.invocation, found]
    rw [names]
    refine (List.filterMap_cons_some here).trans ?_
    exact congrArg (expansion.invocation name tokenName :: ·) (Node.invocations_of_callees others)
  · exact tokenStray.trans (scans.stray fun occurrence member =>
      settled occurrence (List.mem_cons_of_mem _ member))
  · intro span place called given member isMacroName
    rcases List.mem_cons.mp member with same | member
    · cases same
      exact ⟨_, arguments, rfl⟩
    · have behind := (List.mem_cons.mp member).resolve_left (by simp)
      rcases List.mem_cons.mp behind with same | member
      · cases same
      · exact others.isProtected span place called given member isMacroName

/-! ## Declarations -/

theorem scan_append (first second : List Node) :
    scan expansion (first ++ second) =
      scan expansion first >>= fun _ => scan expansion second := by
  funext state
  have same : (first ++ second).findSome? (strayText? expansion state.locals) =
      (first.findSome? (strayText? expansion state.locals)).or
        (second.findSome? (strayText? expansion state.locals)) := List.findSome?_append
  change ((), { state with
      stray := state.stray.or ((first ++ second).findSome? (strayText? expansion state.locals)) }) =
    ((), { state with
      stray := (state.stray.or (first.findSome? (strayText? expansion state.locals))).or
        (second.findSome? (strayText? expansion state.locals)) })
  rw [same, Option.or_assoc]

theorem declaration_ensures (given : Declaration) (unnamed : Node.Unnamed isMacro given.nodes)
    (state : InvocationState) (covers : state.locals.Covers expansion.macros.contains scope) :
    Ensures (declaration expansion given) state fun _ after =>
      after.locals = state.locals.declare given ∧ Invokes expansion isMacro
        (callsAmong expansion.macros.contains
          (given.occurrences (.bindings expansion.macros.contains) scope)) given.nodes state after := by
  have unnamed : Node.Unnamed isMacro given.type.nodes ∧
      Node.Unnamed isMacro (optionalNodes Initializer.nodes given.initializer) :=
    Node.unnamed_append.mp unnamed
  unfold declaration
  let opened : InvocationState := { state with locals := state.locals.declare given }
  have wide : opened.locals.Covers expansion.macros.contains scope := covers.widen given
  have declared : opened.locals.Covers expansion.macros.contains
      ((Scoping.bindings expansion.macros.contains).declare scope given) := covers.declare given
  refine .bindModify ?_
  rw [scan_append, Declaration.occurrences, callsAmong_append]
  refine (scan_elsewhere given.type.callees_nodes unnamed.1 opened wide).bind
    fun _ middle holds => ?_
  obtain ⟨locals, types⟩ := holds
  refine (scan_elsewhere (optionalInitializer_callees given.initializer)
    unnamed.2 middle (locals ▸ declared)).mono fun _ after holds => ?_
  obtain ⟨sameLocals, initializes⟩ := holds
  have both := (types.append initializes).inside (.declaration given) (by simp)
  exact ⟨sameLocals.trans locals, both.tokens, both.stray, both.isProtected⟩

theorem declarations_ensures (given : List Declaration)
    (unnamed : Node.Unnamed isMacro (given.flatMap Declaration.nodes)) (state : InvocationState)
    (covers : state.locals.Covers expansion.macros.contains scope) :
    Ensures (declarations expansion given) state fun _ after =>
      after.locals = given.foldl LocalNames.declare state.locals ∧ Invokes expansion isMacro
        (callsAmong expansion.macros.contains
          (Declaration.listOccurrences (.bindings expansion.macros.contains) scope given))
        (given.flatMap Declaration.nodes) state after := by
  induction given generalizing state scope with
  | nil => exact ⟨rfl, .nothing rfl unnamed rfl fun _ => rfl⟩
  | cons first rest ih =>
    rw [List.flatMap_cons, Node.unnamed_append] at unnamed
    unfold declarations
    refine (declaration_ensures first unnamed.1 state covers).bind fun _ middle holds => ?_
    obtain ⟨locals, firstInvokes⟩ := holds
    refine (ih unnamed.2 middle (locals ▸ covers.declare first)).mono fun _ after holds => ?_
    obtain ⟨restLocals, restInvokes⟩ := holds
    refine ⟨by rw [restLocals, locals, List.foldl_cons], ?_⟩
    rw [Declaration.listOccurrences, callsAmong_append, List.flatMap_cons]
    exact firstInvokes.append restInvokes

/-! ## Statements -/

/-- A statement in which invocations are made. -/
structure InvokesIn (expansion : Expansion) (isMacro : String → Bool) (scope : Bindings)
    (entry : Statement) (state : InvocationState) (result : Statement) (after : InvocationState) :
    Prop where
  locals : after.locals = entry.declared.foldl LocalNames.declare state.locals
  invokes : Invokes expansion isMacro (entry.calls expansion.macros.contains false scope)
    result.nodes state after

def isScanned : Statement → Bool
  | .expression .. | .typeDefinition .. | .returnStatement .. | .breakStatement _
  | .continueStatement _ | .gotoStatement .. | .empty _ => true
  | _ => false

variable {entry : Statement}

theorem statement_of_scanned (scanned : isScanned entry) :
    statement expansion entry = scan expansion entry.nodes >>= fun _ => pure entry := by
  cases entry with
  | expression | typeDefinition | returnStatement | breakStatement | continueStatement
  | gotoStatement | empty => simp only [statement]
  | _ => cases scanned

theorem scanned_of_plain (plain : entry.isPlain) : isScanned entry := by
  cases entry with
  | expression | returnStatement => rfl
  | _ => cases plain

theorem outside_ensures (plain : entry.isPlain)
    (unnamed : Node.Unnamed isMacro entry.nodes) (state : InvocationState)
    (covers : state.locals.Covers expansion.macros.contains scope) :
    Ensures (statement expansion entry) state (InvokesIn expansion isMacro scope entry state) := by
  have calls : entry.calls expansion.macros.contains false scope =
      callsAmong expansion.macros.contains (placedAt scope false entry.ownUses) := by
    rw [Statement.calls, Statement.occurrences_of_plain _ plain]
  have outside : invoked (entry.calls expansion.macros.contains false scope) = [] := by
    rw [calls]
    refine invoked_of_not_invocable fun occurrence member => ?_
    obtain ⟨placed, -, rfl⟩ := List.mem_map.mp (List.mem_filter.mp member).1
    rfl
  rw [statement_of_scanned (scanned_of_plain plain)]
  refine (scan_ensures unnamed outside ?_ state covers).bind fun _ after holds => ?_
  · intro name called isKnown
    rw [Statement.callees_nodes_of_plain plain, Use.mem_callees] at called
    obtain ⟨placed, among, use⟩ := List.mem_map.mp called
    refine ⟨⟨placed.1, placed.2, false, scope⟩, ?_, by rw [use]; rfl, rfl⟩
    rw [calls]
    exact mem_callsAmong.mpr ⟨List.mem_map_of_mem among, name, use, isKnown⟩
  · refine .pure ⟨?_, holds.2⟩
    rw [holds.1, Statement.declared_of_plain plain]
    rfl

theorem head_ensures (head : entry.IsLoopHead)
    (unnamed : Node.Unnamed isMacro entry.nodes) (state : InvocationState)
    (covers : state.locals.Covers expansion.macros.contains scope) :
    Ensures (statement expansion entry) state (InvokesIn expansion isMacro scope entry state) := by
  cases head with
  | expression span value => exact outside_ensures rfl unnamed state covers
  | declaration span given =>
    rw [statement]
    refine (declarations_ensures given unnamed state covers).bind fun _ after holds => ?_
    exact .pure ⟨holds.1, holds.2.statement _⟩
  | typeDefinition span type =>
    rw [statement_of_scanned rfl]
    have same : Node.callees (Statement.typeDefinition span type).nodes = Use.callees type.uses :=
      type.callees_nodes
    exact (scan_elsewhere same unnamed state covers).bind fun _ after holds =>
      .pure ⟨holds.1, holds.2⟩

theorem bare_ensures (scanned : isScanned entry) (compound : entry.isCompound)
    (state : InvocationState) (scope : Bindings) :
    Ensures (statement expansion entry) state (InvokesIn expansion isMacro scope entry state) := by
  rw [statement_of_scanned scanned]
  cases entry with
  | breakStatement | continueStatement | gotoStatement | empty =>
    refine ⟨rfl, .nothing rfl (fun _ member => absurd member List.not_mem_nil) rfl fun _ => ?_⟩
    exact Option.or_none
  | expression | typeDefinition | returnStatement => cases compound
  | _ => cases scanned

/-! ## Plain statements of a block -/

variable {locals : LocalNames} {call : Expr}

theorem isMacroCall_iff (same : locals.Matches expansion.macros.contains scope) :
    isMacroCall expansion locals call ↔ ∃ name, call.callee? = some name ∧
      expansion.macros.contains name ∧ scope.hides name = false := by
  unfold isMacroCall
  cases called : call.callee? with
  | none => simp
  | some name =>
    cases isKnown : expansion.macros.contains name with
    | false => simp [isKnown]
    | true => simp [isKnown, same.contains_eq isKnown]

theorem callee?_of_mem_placedUses {use : Use}
    (member : (use, .call position) ∈ call.placedUses (.call position)) :
    ∃ name, call.callee? = some name ∧ use = .called name := by
  cases call with
  | call span function arguments =>
    rw [Expr.placedUses_call, List.mem_append] at member
    rcases member with member | member
    · unfold Expr.placedCalleeUses at member
      cases named : function.identifier? with
      | none =>
        rw [named] at member
        obtain ⟨other, -, same⟩ := List.mem_map.mp member
        cases same
      | some name =>
        rw [named, List.mem_singleton] at member
        exact ⟨name, named, congrArg Prod.fst member⟩
    · rcases Expr.place_of_mem_listPlacedUses arguments member with same | same | same <;> cases same
  | _ =>
    rw [Expr.placedUses_of_not_call rfl] at member
    obtain ⟨other, -, same⟩ := List.mem_map.mp member
    cases same

theorem place_of_isInvocable {occurrence : Occurrence Bindings} (invocable : occurrence.isInvocable) :
    ∃ position, occurrence.place = .call position ∧ position ≠ .assigned := by
  simp only [Occurrence.isInvocable, Bool.and_eq_true, Bool.or_eq_true, beq_iff_eq] at invocable
  rcases invocable.2 with (same | same) | same <;> exact ⟨_, same, by simp⟩

/-- A plain statement has no invocation unless it stands for the visible call of a function that
becomes a macro. -/
theorem invoked_plain_eq_nil (plain : entry.isPlain) (same : locals.Matches expansion.macros.contains scope)
    (none : ∀ position call, entry.callSite? = some (position, call) → position ≠ .assigned →
      isMacroCall expansion locals call = false) :
    invoked (entry.calls expansion.macros.contains true scope) = [] := by
  unfold invoked
  rw [List.map_eq_nil_iff, List.filter_eq_nil_iff]
  intro occurrence member isInvoked
  simp only [Occurrence.isInvoked, Bool.and_eq_true, Bool.not_eq_true'] at isInvoked
  obtain ⟨position, place, notAssigned⟩ := place_of_isInvocable isInvoked.1
  rw [Statement.calls, Statement.occurrences_of_plain _ plain, mem_callsAmong] at member
  obtain ⟨among, name, use, isKnown⟩ := member
  obtain ⟨placed, own, rfl⟩ := List.mem_map.mp among
  obtain ⟨placedUse, placedPlace⟩ := placed
  dsimp only at place use isInvoked
  subst place use
  cases site : entry.callSite? with
  | none => cases Statement.elsewhere_of_callSite?_eq_none site own
  | some found =>
    obtain ⟨siteAt, call⟩ := found
    obtain ⟨isCall, uses, context, isSite, rfl⟩ := Statement.isSite_of_callSite? site
    rw [isSite.ownUses isCall, List.mem_append] at own
    rcases own with own | own
    · obtain ⟨other, -, same⟩ := List.mem_map.mp own
      cases same
    · have samePlace : siteAt = position := by
        rcases Expr.place_of_mem_placedUses call own with same | same | same <;> cases same
        rfl
      subst samePlace
      obtain ⟨other, called, sameUse⟩ := callee?_of_mem_placedUses own
      cases sameUse
      have isMacro := (isMacroCall_iff same).mpr ⟨name, called, isKnown, isInvoked.2⟩
      rw [none siteAt call site notAssigned] at isMacro
      cases isMacro

theorem scan_plain (plain : entry.isPlain) (unnamed : Node.Unnamed isMacro entry.nodes)
    (same : state.locals.Matches expansion.macros.contains scope)
    (none : ∀ position call, entry.callSite? = some (position, call) → position ≠ .assigned →
      isMacroCall expansion state.locals call = false) :
    Ensures (scan expansion entry.nodes) state fun _ after =>
      after.locals = state.locals ∧ Invokes expansion isMacro
        (entry.calls expansion.macros.contains true scope) entry.nodes state after := by
  refine scan_ensures unnamed (invoked_plain_eq_nil plain same none) ?_ state same.toCovers
  intro name called isKnown
  rw [Statement.callees_nodes_of_plain plain, Use.mem_callees] at called
  obtain ⟨placed, own, use⟩ := List.mem_map.mp called
  refine ⟨⟨placed.1, placed.2, true, scope⟩, ?_, by rw [use]; rfl, rfl⟩
  rw [Statement.calls, Statement.occurrences_of_plain _ plain, mem_callsAmong]
  exact ⟨List.mem_map_of_mem own, name, use, isKnown⟩

theorem invoke_site
    (named : ∀ name macroName, expansion.macros.find? name = some macroName → isMacro macroName)
    (site : entry.callSite? = some (position, call)) (notAssigned : position ≠ .assigned)
    (unnamed : Node.Unnamed isMacro entry.nodes) (same : state.locals.Matches expansion.macros.contains scope)
    (isMacroCall : isMacroCall expansion state.locals call) :
    Ensures (invoke expansion call) state fun result after =>
      after.locals = state.locals ∧ result.isCall ∧ Invokes expansion isMacro
        (entry.calls expansion.macros.contains true scope) result.nodes state after := by
  obtain ⟨name, called, isKnown, visible⟩ := (isMacroCall_iff same).mp isMacroCall
  obtain ⟨isCall, uses, context, isSite, rfl⟩ := Statement.isSite_of_callSite? site
  have plain := isSite.isPlain call
  have ownUses := isSite.ownUses isCall
  rw [isSite.uses_eq_nil notAssigned] at ownUses
  obtain ⟨span, function, arguments, rfl, identified, -⟩ := Expr.placedUses_of_callee? called
  cases function with
  | identifier place other =>
    cases identified
    rw [Statement.calls, Statement.occurrences_of_plain _ plain, ownUses]
    refine invoke_ensures named isKnown visible ?_ ?_ same.toCovers
    · cases position <;> simp at notAssigned ⊢
    · intro callee among
      refine unnamed callee ?_
      rw [Expr.callees_listNodes, Use.mem_callees] at among
      rw [Statement.callees_nodes_of_plain plain, Use.mem_callees, ownUses]
      rw [List.map_append, Expr.map_fst_placedUses, Expr.uses_call]
      exact List.mem_append_right _ (List.mem_append_right _ among)
  | _ => cases identified

theorem invocation?_of_call (isCall : call.isCall) (span : Span) (locals : LocalNames) :
    invocation? expansion locals (.expression span call) =
      if isMacroCall expansion locals call then some call else none := by
  cases call with
  | call callSpan function arguments => rfl
  | _ => cases isCall

theorem replaceTopCall_of_call (isCall : call.isCall) (span : Span) (result : Expr) :
    (Statement.expression span call).replaceTopCall result = .expression span result := by
  cases call with
  | call callSpan function arguments => rfl
  | _ => cases isCall

/-- What takes the place of a plain statement of a block: a call that is thrown away or returned
stands on its own. -/
structure PlacedAs (expansion : Expansion) (locals : LocalNames) (entry : Statement)
    (plain : List Statement) : Prop where
  site : ∃ position call, entry.callSite? = some (position, call) ∧ position ≠ .assigned ∧
    isMacroCall expansion locals call ∧ (plain = [.expression entry.span call] ∨
      plain = [.expression entry.span call, .returnStatement entry.span none])

theorem placed?_eq_some {plain : List Statement}
    (placed : placed? expansion locals entry = some plain) : PlacedAs expansion locals entry plain := by
  unfold placed? at placed
  split at placed
  · next call site =>
    split at placed
    · next isMacro =>
      cases placed
      exact ⟨_, call, site, by simp, isMacro, .inl rfl⟩
    · cases placed
  · next call site =>
    split at placed
    · next isMacro =>
      cases placed
      exact ⟨_, call, site, by simp, isMacro, .inr rfl⟩
    · cases placed
  · cases placed

theorem invocation?_eq_some (found : invocation? expansion locals entry = some call) :
    entry.callSite? = some (.whole, call) ∧ isMacroCall expansion locals call := by
  unfold invocation? at found
  split at found
  · next given site =>
    split at found
    · next isMacro =>
      cases found
      exact ⟨site, isMacro⟩
    · cases found
  · cases found

theorem not_macroCall_of_none (notPlaced : placed? expansion locals entry = none)
    (notWhole : invocation? expansion locals entry = none) (position : CallPosition) (call : Expr)
    (site : entry.callSite? = some (position, call)) (notAssigned : position ≠ .assigned) :
    isMacroCall expansion locals call = false := by
  unfold placed? at notPlaced
  unfold invocation? at notWhole
  rw [site] at notPlaced notWhole
  cases position with
  | assigned => exact absurd rfl notAssigned
  | whole => simpa using notWhole
  | thrownAway => simpa using notPlaced
  | returned => simpa using notPlaced

theorem plainStatements_append (first second : List Statement) :
    plainStatements expansion (first ++ second) = do
      let first ← plainStatements expansion first
      return first ++ (← plainStatements expansion second) := by
  induction first with
  | nil => simp [plainStatements]
  | cons statement statements ih =>
    simp only [List.cons_append, plainStatements, ih, bind_assoc]
    refine bind_congr fun state => ?_
    cases invocation? expansion state.locals statement <;> simp

theorem plainStatements_return (span : Span) (state : InvocationState) :
    Ensures (plainStatements expansion [.returnStatement span none]) state fun result after =>
      result = [.returnStatement span none] ∧ after = state := by
  rw [plainStatements]
  refine .bindGet ?_
  refine ⟨rfl, ?_⟩
  change ({ state with stray := state.stray.or none } : InvocationState) = state
  rw [Option.or_none]

theorem placed_ensures {plain : List Statement}
    (named : ∀ name macroName, expansion.macros.find? name = some macroName → isMacro macroName)
    (placed : PlacedAs expansion locals entry plain) (unnamed : Node.Unnamed isMacro entry.nodes)
    (same : state.locals.Matches expansion.macros.contains scope)
    (sameToo : locals.Matches expansion.macros.contains scope) :
    Ensures (plainStatements expansion plain) state fun result after =>
      after.locals = state.locals ∧ Invokes expansion isMacro
        (entry.calls expansion.macros.contains true scope) (Statement.listNodes result) state after := by
  obtain ⟨position, call, site, notAssigned, isMacroCall, shape⟩ := placed.site
  have isCall := (Statement.isSite_of_callSite? site).1
  rw [isMacroCall_iff sameToo, ← isMacroCall_iff same] at isMacroCall
  have invokes := invoke_site named site notAssigned unnamed same isMacroCall
  have single : Ensures (plainStatements expansion [.expression entry.span call]) state
      fun result after => after.locals = state.locals ∧ Invokes expansion isMacro
        (entry.calls expansion.macros.contains true scope) (Statement.listNodes result)
        state after := by
    rw [plainStatements]
    refine .bindGet ?_
    rw [invocation?_of_call isCall, if_pos isMacroCall]
    refine invokes.bind fun result after holds => ?_
    obtain ⟨sameLocals, -, invokes⟩ := holds
    rw [plainStatements, replaceTopCall_of_call isCall]
    refine .pure ⟨sameLocals, ?_⟩
    simpa [Statement.listNodes, Statement.nodes] using invokes.statement (.expression entry.span result)
  rcases shape with rfl | rfl
  · exact single
  · rw [← List.singleton_append, plainStatements_append]
    refine single.bind fun first middle holds => ?_
    refine (plainStatements_return entry.span middle).bind fun second after returns => ?_
    obtain ⟨rfl, rfl⟩ := returns
    refine .pure ⟨holds.1, ?_⟩
    have nothing : Invokes expansion isMacro []
        (Statement.returnStatement entry.span none).nodes after after :=
      .nothing rfl (fun _ member => absurd member List.not_mem_nil) rfl fun _ => rfl
    simpa [Statement.listNodes_append, Statement.listNodes] using holds.2.append nothing

/-! ## Blocks -/

def Places (expansion : Expansion) : Bindings → List Statement → List (Option (List Statement)) → Prop
  | _, [], _ => True
  | _, _ :: _, [] => False
  | scope, entry :: entries, placed :: others =>
    (∃ locals : LocalNames, locals.Matches expansion.macros.contains scope ∧
        placed = (if entry.isPlain then placed? expansion locals entry else none)) ∧
      Places expansion (entry.scopeAfter (.bindings expansion.macros.contains) scope) entries others

theorem placed?_of_not_plain (notPlain : entry.isPlain = false) : placed? expansion locals entry = none := by
  cases entry with
  | expression | returnStatement => cases notPlain
  | _ => rfl

theorem invocation?_of_not_plain
    (notPlain : entry.isPlain = false) : invocation? expansion locals entry = none := by
  cases entry with
  | expression | returnStatement => cases notPlain
  | _ => rfl

theorem placements_places {entries : List Statement} (braced : ∀ entry ∈ entries, entry.Braced)
      (same : locals.Matches expansion.macros.contains scope) :
    Places expansion scope entries (placements expansion locals entries) := by
  induction entries generalizing locals scope with
  | nil => trivial
  | cons entry entries ih =>
    have entryBraced := braced entry (by simp)
    have behind := same.declareAll entry.declared
    rw [← entryBraced.scopeAfter_eq, ← LocalNames.declareStatement_eq] at behind
    refine ⟨⟨locals, same, ?_⟩, ih (fun other member => braced other (by simp [member])) behind⟩
    cases plain : entry.isPlain with
    | true =>
      rw [if_pos rfl, LocalNames.declareStatement_eq, Statement.declared_of_plain plain]
      rfl
    | false => rw [placed?_of_not_plain plain, if_neg Bool.false_ne_true]

/-- The statements of a block in which invocations are made. -/
structure InvokesInAll (expansion : Expansion) (isMacro : String → Bool) (scope : Bindings)
    (entries : List Statement) (state : InvocationState) (result : List Statement)
    (after : InvocationState) : Prop where
  tail : after.locals.frames.tail = state.locals.frames.tail
  invokes : Invokes expansion isMacro
    (Statement.listCalls expansion.macros.contains scope entries) (Statement.listNodes result)
    state after

abbrev InvokesEach (expansion : Expansion) (isMacro : String → Bool) (entries : List Statement) :
    Prop :=
  ∀ entry ∈ entries, ∀ (state : InvocationState) (scope : Bindings),
    Node.Unnamed isMacro entry.nodes → state.locals.Matches expansion.macros.contains scope →
    Ensures (statement expansion entry) state (InvokesIn expansion isMacro scope entry state)

def kept (expansion : Expansion) (entry : Statement) : Invoking Statement := do
  declareStatement entry
  match invocation? expansion (← get).locals entry with
  | some call => do
    let call ← invoke expansion call
    pure (entry.replaceTopCall call)
  | none => statement expansion entry

theorem statements_kept (placed : List (Option (List Statement))) (entry : Statement)
    (entries : List Statement) :
    statements expansion (none :: placed) (entry :: entries) = do
      let first ← kept expansion entry
      return first :: (← statements expansion placed entries) := by
  rw [statements]
  · rw [kept]
    simp only [bind_assoc, List.tail_cons]
    refine bind_congr fun _ => bind_congr fun state => ?_
    cases invocation? expansion state.locals entry <;> simp
  · intro plain others impossible
    cases impossible

theorem isMacroCall_congr {other : LocalNames} (same : locals.Matches expansion.macros.contains scope)
    (sameToo : other.Matches expansion.macros.contains scope) (call : Expr) :
    isMacroCall expansion locals call = isMacroCall expansion other call := by
  rw [Bool.eq_iff_iff, isMacroCall_iff same, isMacroCall_iff sameToo]

theorem placed?_congr {other : LocalNames} (same : locals.Matches expansion.macros.contains scope)
    (sameToo : other.Matches expansion.macros.contains scope) (entry : Statement) :
    placed? expansion locals entry = placed? expansion other entry := by
  unfold placed?
  simp only [isMacroCall_congr same sameToo]

/-- What is known behind a statement of a block that is kept. -/
structure KeepsEntry (expansion : Expansion) (isMacro : String → Bool) (scope : Bindings)
    (entry : Statement) (state : InvocationState) (result : Statement) (after : InvocationState) :
    Prop where
  tail : after.locals.frames.tail = state.locals.frames.tail
  locals : after.locals.Matches expansion.macros.contains
    (entry.scopeAfter (.bindings expansion.macros.contains) scope)
  invokes : Invokes expansion isMacro (entry.calls expansion.macros.contains true scope)
    result.nodes state after

theorem kept_plain (plain : entry.isPlain)
    (named : ∀ name macroName, expansion.macros.find? name = some macroName → isMacro macroName)
    (unnamed : Node.Unnamed isMacro entry.nodes) (sameLocals : locals.Matches expansion.macros.contains scope)
    (notPlaced : placed? expansion locals entry = none)
    (same : state.locals.Matches expansion.macros.contains scope) :
    Ensures (kept expansion entry) state (KeepsEntry expansion isMacro scope entry state) := by
  have declares : state.locals.declareStatement entry = state.locals := by
    rw [LocalNames.declareStatement_eq, Statement.declared_of_plain plain]
    rfl
  have scopeAfter := Statement.scopeAfter_of_plain (.bindings expansion.macros.contains) scope plain
  unfold kept
  refine .bindModify ?_
  rw [declares]
  refine .bindGet ?_
  rw [placed?_congr sameLocals same] at notPlaced
  dsimp only
  cases whole : invocation? expansion state.locals entry with
  | some call =>
    unfold invocation? at whole
    split at whole
    · next found site =>
      split at whole
      · next isMacroCall =>
        cases whole
        refine (invoke_site named site (by simp) unnamed same isMacroCall).bind
          fun result after holds => ?_
        obtain ⟨sameLocals, -, invokes⟩ := holds
        obtain ⟨isCall, uses, context, isSite, rfl⟩ := Statement.isSite_of_callSite? site
        rw [isSite.replaceTopCall isCall]
        refine .pure ⟨by rw [sameLocals], by rw [sameLocals, scopeAfter]; exact same, ?_⟩
        cases isSite with
        | whole place => exact invokes.statement _
      · cases whole
    · cases whole
  | none =>
    dsimp only
    rw [statement_of_scanned (scanned_of_plain plain)]
    refine (scan_plain plain unnamed same (not_macroCall_of_none notPlaced whole)).bind
      fun _ after holds => ?_
    obtain ⟨sameLocals, invokes⟩ := holds
    exact .pure ⟨by rw [sameLocals], by rw [sameLocals, scopeAfter]; exact same, invokes⟩

theorem kept_compound (braced : entry.Braced) (notPlain : entry.isPlain = false)
    (each : InvokesEach expansion isMacro [entry]) (unnamed : Node.Unnamed isMacro entry.nodes)
    (same : state.locals.Matches expansion.macros.contains scope) :
    Ensures (kept expansion entry) state (KeepsEntry expansion isMacro scope entry state) := by
  have scopeAfter := braced.scopeAfter_eq (.bindings expansion.macros.contains) scope
  have calls : entry.calls expansion.macros.contains true scope =
      entry.calls expansion.macros.contains false scope := by
    rw [Statement.calls, Statement.calls, Statement.occurrences_of_not_plain _ notPlain]
  let opened : InvocationState :=
    { state with locals := entry.declared.foldl LocalNames.declare state.locals }
  have inside : Ensures (statement expansion entry) opened
      (InvokesIn expansion isMacro scope entry opened) := by
    rcases entry.declared_cases with nothing | ⟨span, given, rfl⟩
    · have unchanged : opened = state := by simp [opened, nothing]
      rw [unchanged]
      exact each entry (by simp) state scope unnamed same
    · have wide := (same.declareAll given).toCovers
      exact head_ensures (.declaration span given) unnamed opened (.ofLater same.openedScope wide)
  unfold kept
  refine .bindModify ?_
  rw [LocalNames.declareStatement_eq]
  refine .bindGet ?_
  rw [invocation?_of_not_plain notPlain]
  refine inside.mono fun result after holds => ⟨?_, ?_, ?_⟩
  · rw [holds.locals, LocalNames.tail_foldl_declare]
    exact LocalNames.tail_foldl_declare _ entry.declared
  · rw [holds.locals, scopeAfter]
    exact same.twice entry.declared
  · rw [calls]
    exact ⟨holds.invokes.tokens, holds.invokes.stray, holds.invokes.isProtected⟩

theorem statements_ensures {entries : List Statement} (braced : ∀ entry ∈ entries, entry.Braced)
    (named : ∀ name macroName, expansion.macros.find? name = some macroName → isMacro macroName)
    (each : InvokesEach expansion isMacro entries)
    (unnamed : Node.Unnamed isMacro (Statement.listNodes entries))
    (placed : List (Option (List Statement))) (state : InvocationState)
    (places : Places expansion scope entries placed)
    (same : state.locals.Matches expansion.macros.contains scope) :
    Ensures (statements expansion placed entries) state
      (InvokesInAll expansion isMacro scope entries state) := by
  induction entries generalizing placed state scope with
  | nil =>
    rw [statements]
    exact .pure ⟨rfl, .nothing rfl unnamed rfl fun _ => rfl⟩
  | cons entry entries ih =>
    have entryBraced := braced entry (by simp)
    have othersBraced := fun other (member : other ∈ entries) => braced other (by simp [member])
    have othersEach : InvokesEach expansion isMacro entries := fun other member =>
      each other (by simp [member])
    rw [Statement.listNodes, Node.unnamed_append] at unnamed
    cases placed with
    | nil => cases places
    | cons option others =>
      obtain ⟨⟨locals, sameLocals, isPlaced⟩, rest⟩ := places
      cases option with
      | some plain =>
        cases isPlain : entry.isPlain with
        | false => simp [isPlain] at isPlaced
        | true =>
          rw [isPlain, if_pos rfl] at isPlaced
          rw [Statement.scopeAfter_of_plain _ _ isPlain] at rest
          rw [statements]
          refine (placed_ensures named (placed?_eq_some isPlaced.symm) unnamed.1 same
            sameLocals).bind fun first middle holds => ?_
          obtain ⟨keepsLocals, invokes⟩ := holds
          refine (ih othersBraced othersEach unnamed.2 others middle rest
            (keepsLocals ▸ same)).bind fun results after holds => ?_
          refine .pure ⟨by rw [holds.tail, keepsLocals], ?_⟩
          rw [Statement.listCalls_cons, Statement.scopeAfter_of_plain _ _ isPlain, Statement.listNodes_append]
          exact invokes.append holds.invokes
      | none =>
        have keeps : Ensures (kept expansion entry) state
            (KeepsEntry expansion isMacro scope entry state) := by
          cases isPlain : entry.isPlain with
          | true =>
            rw [isPlain, if_pos rfl] at isPlaced
            exact kept_plain isPlain named unnamed.1 sameLocals isPlaced.symm same
          | false =>
            refine kept_compound entryBraced isPlain ?_ unnamed.1 same
            intro other member
            obtain rfl := List.mem_singleton.mp member
            exact each other (by simp)
        rw [statements_kept]
        refine keeps.bind fun first middle holds => ?_
        refine (ih othersBraced othersEach unnamed.2 others middle rest holds.locals).bind
          fun results after restHolds => ?_
        refine .pure ⟨restHolds.tail.trans holds.tail, ?_⟩
        rw [Statement.listCalls_cons]
        exact holds.invokes.append restHolds.invokes

/-! ## All statements -/

theorem InvokesIn.compound {result : Statement}
    {after : InvocationState} (compound : entry.isCompound) (locals : after.locals = state.locals)
    (invokes : Invokes expansion isMacro (entry.calls expansion.macros.contains false scope)
      result.nodes state after) : InvokesIn expansion isMacro scope entry state result after :=
  ⟨by rw [locals, Statement.declared_of_compound compound]; rfl, invokes⟩

theorem InvokesIn.locals_of_declared {result : Statement}
    {after : InvocationState} (invokes : InvokesIn expansion isMacro scope entry state result after)
    (nothing : entry.declared = []) : after.locals = state.locals := by
  rw [invokes.locals, nothing]
  rfl

theorem statement_ensures (braced : entry.Braced)
    (named : ∀ name macroName, expansion.macros.find? name = some macroName → isMacro macroName)
    (unnamed : Node.Unnamed isMacro entry.nodes) (state : InvocationState)
    (same : state.locals.Matches expansion.macros.contains scope) :
    Ensures (statement expansion entry) state (InvokesIn expansion isMacro scope entry state) := by
  induction braced generalizing state scope with
  | expression span value => exact head_ensures (.expression span value) unnamed state same.toCovers
  | declaration span given =>
    exact head_ensures (.declaration span given) unnamed state same.toCovers
  | typeDefinition span type =>
    exact head_ensures (.typeDefinition span type) unnamed state same.toCovers
  | block span entries each ih =>
    rw [Statement.nodes, Node.unnamed_statement] at unnamed
    rw [statement]
    refine .bindModify (.bindGet ?_)
    refine (statements_ensures each named (fun entry member state scope free same =>
      ih entry member free state same) unnamed _ _ (placements_places each same.enter)
      same.enter).bind fun result after holds => ?_
    refine .bindModify (.pure (.compound rfl (LocalNames.leave_of_tail holds.tail) ?_))
    rw [Statement.nodes]
    have all := holds.invokes.statement (.block span result)
    exact ⟨all.tokens, all.stray, all.isProtected⟩
  | ifElse span condition thenBranch elseBranch thenBlock elseBlock thenBraced elseBraced thenIh
      elseIh =>
    simp only [Statement.nodes, Statement.optionNodes, Node.unnamed_statement,
      Node.unnamed_append] at unnamed
    rw [statement]
    refine (scan_elsewhere condition.callees_nodes unnamed.1.1 state same.toCovers).bind
      fun _ first scans => ?_
    refine (thenIh unnamed.1.2 first (scans.1 ▸ same)).bind fun thenResult middle thenHolds => ?_
    have thenLocals := thenHolds.locals_of_declared (Statement.declared_of_isBlock thenBlock)
    refine (elseIh unnamed.2 middle (thenLocals.trans scans.1 ▸ same)).bind
      fun elseResult after elseHolds => ?_
    have elseLocals := elseHolds.locals_of_declared (Statement.declared_of_isBlock elseBlock)
    refine .pure (.compound rfl (elseLocals.trans (thenLocals.trans scans.1)) ?_)
    simp only [Statement.calls, Statement.occurrences, callsAmong_append,
      Statement.scopeAfter_of_isBlock _ _ thenBlock, Statement.nodes, Statement.optionNodes]
    have all := (scans.2.append thenHolds.invokes).append elseHolds.invokes
    rw [List.append_assoc (callsAmong _ _)] at all
    exact all.statement _
  | whileLoop span value body bodyBlock _ ih | switch span value body bodyBlock _ ih =>
    simp only [Statement.nodes, Node.unnamed_statement, Node.unnamed_append] at unnamed
    rw [statement]
    refine (scan_elsewhere value.callees_nodes unnamed.1 state same.toCovers).bind
      fun _ middle scans => ?_
    refine (ih unnamed.2 middle (scans.1 ▸ same)).bind fun result after holds => ?_
    have locals := holds.locals_of_declared (Statement.declared_of_isBlock bodyBlock)
    refine .pure (.compound rfl (locals.trans scans.1) ?_)
    simp only [Statement.calls, Statement.occurrences, callsAmong_append, Statement.nodes]
    exact (scans.2.append holds.invokes).statement _
  | bareLoop span condition update body bodyBlock bodyBraced ih =>
    simp only [Statement.nodes, Statement.optionNodes, List.nil_append, Node.unnamed_statement,
      Node.unnamed_append] at unnamed
    rw [statement]
    refine (scan_elsewhere (optionalExprs_callees condition update) (Node.unnamed_append.mpr unnamed.1) state same.toCovers).bind
      fun _ middle scans => ?_
    refine (ih unnamed.2 middle (scans.1 ▸ same)).bind fun result after holds => ?_
    have locals := holds.locals_of_declared (Statement.declared_of_isBlock bodyBlock)
    refine .pure (.compound rfl (locals.trans scans.1) ?_)
    simp only [Statement.calls, Statement.occurrences, callsAmong_append, Statement.nodes,
      Statement.optionNodes, List.nil_append]
    exact (scans.2.append holds.invokes).statement _
  | forLoop span init condition update body head bodyBlock bodyBraced ih =>
    simp only [Statement.nodes, Statement.optionNodes, Node.unnamed_statement,
      Node.unnamed_append] at unnamed
    rw [statement]
    refine .bindModify ?_
    let opened : InvocationState := { state with locals := state.locals.enter }
    have openedSame : opened.locals.Matches expansion.macros.contains
        ((Scoping.bindings expansion.macros.contains).enter scope) := same.enter
    refine (head_ensures head unnamed.1.1.1 opened openedSame.toCovers).bind
      fun start first starts => ?_
    have behind := openedSame.declareAll init.declared
    rw [← head.braced.scopeAfter_eq, ← starts.locals] at behind
    refine (scan_elsewhere (optionalExprs_callees condition update) (Node.unnamed_append.mpr ⟨unnamed.1.1.2, unnamed.1.2⟩) first
      behind.toCovers).bind fun _ middle scans => ?_
    refine (ih unnamed.2 middle (scans.1 ▸ behind)).bind fun result after holds => ?_
    have locals := holds.locals_of_declared (Statement.declared_of_isBlock bodyBlock)
    have closed : after.locals.leave = state.locals := by
      rw [locals, scans.1, starts.locals]
      exact LocalNames.leave_of_tail (LocalNames.tail_foldl_declare _ init.declared)
    refine .bindModify (.pure (.compound rfl closed ?_))
    simp only [Statement.calls, Statement.occurrences, callsAmong_append, Statement.nodes,
      Statement.optionNodes]
    have all := starts.invokes.append (scans.2.append holds.invokes)
    rw [← List.append_assoc start.nodes, ← List.append_assoc start.nodes] at all
    have whole := all.statement (.forLoop span (some start) condition update result)
    exact ⟨whole.tokens, whole.stray, whole.isProtected⟩
  | doWhile span body condition bodyBlock bodyBraced ih =>
    simp only [Statement.nodes, Node.unnamed_statement, Node.unnamed_append] at unnamed
    rw [statement]
    refine (ih unnamed.1 state same).bind fun result middle holds => ?_
    have locals := holds.locals_of_declared (Statement.declared_of_isBlock bodyBlock)
    refine (scan_elsewhere condition.callees_nodes unnamed.2 middle (locals ▸ same.toCovers)).bind
      fun _ after scans => ?_
    refine .pure (.compound rfl (scans.1.trans locals) ?_)
    simp only [Statement.calls, Statement.occurrences, callsAmong_append, Statement.nodes,
      Statement.scopeAfter_of_isBlock _ _ bodyBlock]
    exact (holds.invokes.append scans.2).statement _
  | caseLabel span value labelled marked labelledBraced ih =>
    simp only [Statement.nodes, Node.unnamed_statement, Node.unnamed_append] at unnamed
    rw [statement]
    refine (scan_elsewhere value.callees_nodes unnamed.1 state same.toCovers).bind
      fun _ middle scans => ?_
    refine (ih unnamed.2 middle (scans.1 ▸ same)).bind fun result after holds => ?_
    have locals := holds.locals_of_declared (Statement.declared_of_isMarked marked)
    refine .pure (.compound rfl (locals.trans scans.1) ?_)
    simp only [Statement.calls, Statement.occurrences, callsAmong_append, Statement.nodes]
    exact (scans.2.append holds.invokes).statement _
  | defaultLabel span labelled marked labelledBraced ih =>
    rw [Statement.nodes, Node.unnamed_statement] at unnamed
    rw [statement]
    refine (ih unnamed state same).bind fun result after holds => ?_
    refine .pure (.compound rfl (holds.locals_of_declared (Statement.declared_of_isMarked marked)) ?_)
    rw [Statement.nodes]
    exact holds.invokes.statement _
  | labelled span label labelled marked labelledBraced ih =>
    rw [Statement.nodes, Node.unnamed_statement] at unnamed
    rw [statement]
    refine (ih unnamed state same).bind fun result after holds => ?_
    refine .pure (.compound rfl (holds.locals_of_declared (Statement.declared_of_isMarked marked)) ?_)
    rw [Statement.nodes]
    exact holds.invokes.statement _
  | returnStatement span value => exact outside_ensures rfl unnamed state same.toCovers
  | breakStatement | continueStatement | gotoStatement | empty =>
    exact bare_ensures rfl rfl state scope

end Invoking

/-! ## Functions -/

theorem Pass.invokeMacros_run (expansion : Expansion) (function : Function) (registry : Registry) :
    (Pass.invokeMacros expansion).run ⟨function, registry⟩ =
      let (body, state) := (Invoking.statement expansion function.body).run
        ⟨.ofFunction function, registry, none⟩
      let work : Work := ⟨{ function with body := body }, state.registry⟩
      match state.stray with
      | none => .ok () work
      | some call => .error (.internal ("macroized call '" ++ call ++ "' in '" ++
        function.name ++ "' is not a statement")) work := by
  simp only [Pass.invokeMacros, EStateM.run_bind, EStateM.run_get]
  generalize (Invoking.statement expansion function.body).run ⟨.ofFunction function, registry, none⟩ = result
  obtain ⟨body, locals, after, stray⟩ := result
  cases stray <;> rfl

theorem Pass.invokeMacros_ensures {expansion : Expansion} {function : Function} {registry : Registry}
    {post : Statement → InvocationState → Prop}
    (ensures : Ensures (Invoking.statement expansion function.body) ⟨.ofFunction function, registry, none⟩ post)
    {work : Work} (runs : (Pass.invokeMacros expansion).run ⟨function, registry⟩ = .ok () work) :
    work.function = { function with body := work.function.body } ∧
      ∃ locals, post work.function.body ⟨locals, work.registry, none⟩ := by
  rw [Pass.invokeMacros_run] at runs
  unfold Ensures at ensures
  generalize (Invoking.statement expansion function.body).run
    ⟨.ofFunction function, registry, none⟩ = result at ensures runs
  obtain ⟨body, locals, after, stray⟩ := result
  cases stray with
  | none =>
    cases runs
    exact ⟨rfl, locals, ensures⟩
  | some call => cases runs

/-- A function in which invocations have been made. -/
structure Function.InvokedFrom (expansion : Expansion) (isMacro : String → Bool)
    (function : Function) (registry : Registry) (result : Function) (after : Registry) : Prop where
  body : result = { function with body := result.body }
  isProtected : Node.Protected isMacro result.body.nodes
  tokens : ∃ tokens, Registry.Numbers "ns" registry after tokens ∧
    tokens.length = (Occurrence.invoked (function.calls expansion.macros.contains)).length ∧
    result.invocations isMacro = List.zipWith expansion.invocation
      (Occurrence.invoked (function.calls expansion.macros.contains)) tokens

section InvokeMacros

variable {expansion : Expansion} {isMacro : String → Bool} {function : Function}
  {registry : Registry}

theorem Function.invokes_body (registry : Registry) (braced : function.body.Braced)
    (named : ∀ name macroName, expansion.macros.find? name = some macroName → isMacro macroName)
    (unnamed : Node.Unnamed isMacro function.body.nodes) :
    Ensures (Invoking.statement expansion function.body)
      ⟨.ofFunction function, registry, none⟩ fun result after =>
        Invoking.Invokes expansion isMacro (function.calls expansion.macros.contains)
          result.nodes ⟨.ofFunction function, registry, none⟩ after :=
  (Invoking.statement_ensures braced named unnamed _ (.ofFunction function)).mono
    fun _ _ holds => holds.invokes

/-- If invocations could be made in a function, its visible calls have become invocations with
tokens from the registry. -/
theorem Pass.invokeMacros_invokedFrom (braced : function.body.Braced)
    (named : ∀ name macroName, expansion.macros.find? name = some macroName → isMacro macroName)
    (unnamed : Node.Unnamed isMacro function.body.nodes) {work : Work}
    (runs : (Pass.invokeMacros expansion).run ⟨function, registry⟩ = .ok () work) :
    function.InvokedFrom expansion isMacro registry work.function work.registry := by
  obtain ⟨same, locals, invokes⟩ :=
    Pass.invokeMacros_ensures (Function.invokes_body registry braced named unnamed) runs
  exact ⟨same, invokes.isProtected, invokes.tokens⟩

theorem Pass.invokeMacros_ok (braced : function.body.Braced)
    (named : ∀ name macroName, expansion.macros.find? name = some macroName → isMacro macroName)
    (unnamed : Node.Unnamed isMacro function.body.nodes)
    (settled : Occurrence.Settled (function.calls expansion.macros.contains)) :
    ∃ work, (Pass.invokeMacros expansion).run ⟨function, registry⟩ = .ok () work := by
  have invokes := Function.invokes_body registry braced named unnamed
  rw [Pass.invokeMacros_run]
  unfold Ensures at invokes
  generalize (Invoking.statement expansion function.body).run
    ⟨.ofFunction function, registry, none⟩ = result at invokes
  obtain ⟨body, locals, after, stray⟩ := result
  have noStray : stray = none := invokes.stray settled
  subst noStray
  exact ⟨_, rfl⟩

end InvokeMacros

theorem Function.unnamed_of_calls {isMacro known : String → Bool} {function : Function}
    (covers : ∀ name, isMacro name → known name)
    (others : ∀ occurrence ∈ function.calls known, isMacro occurrence.use.name = false) :
    Node.Unnamed isMacro function.body.nodes := by
  intro name called
  rw [Statement.callees_nodes (.bindings known) _ false
    ((Scoping.bindings known).ofFunction function), Use.mem_callees] at called
  obtain ⟨occurrence, member, use⟩ := List.mem_map.mp called
  rw [Bool.eq_false_iff]
  intro isMacroName
  have among : occurrence ∈ function.calls known :=
    Occurrence.mem_callsAmong.mpr ⟨member, name, use, covers name isMacroName⟩
  have notMacro := others occurrence among
  rw [use, Use.name, isMacroName] at notMacro
  cases notMacro

end InlineMacro
