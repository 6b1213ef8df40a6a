import InlineMacro.Proofs.Pass.CompleteFlattening
import Mathlib.Data.List.Nodup

/-!
# Flattening keeps every call, once, in the order of evaluation

What takes the place of a statement are its calls of targets, inner ones in front of outer ones and
earlier arguments in front of later ones, and behind them what is left of the statement. With each
call put back in the place of its temporary that is the statement again. A temporary is that of one
call, and besides the statement of that call it is mentioned once at most.
-/

set_option autoImplicit false

namespace InlineMacro

open Flatten (reaches reachedCalls callStatements callsTarget TakesApart Lowers LowersAll)

/-! ## The order of calls -/

mutual

/-- A call and the calls that are its arguments, directly or through further calls, in the order in
which they are evaluated. -/
def Expr.callsInnerFirst : Expr → List Expr
  | .call span function arguments =>
    Expr.listCallsInnerFirst arguments ++ [.call span function arguments]
  | _ => []

def Expr.listCallsInnerFirst : List Expr → List Expr
  | [] => []
  | argument :: arguments => argument.callsInnerFirst ++ Expr.listCallsInnerFirst arguments

end

def Statement.callsInnerFirst (statement : Statement) : List Expr :=
  (statement.topCall?.map Expr.callsInnerFirst).getD []

/-! ## Calls put back -/

mutual

/-- An expression with calls in the places of their temporaries: instead of the expression, or among
the arguments of a call. -/
def Expr.putBack (calls : List FlattenedCall) : Expr → Expr
  | .identifier span name =>
    ((calls.find? fun call => call.temporary == name).map FlattenedCall.before).getD
      (.identifier span name)
  | .call span function arguments => .call span function (Expr.listPutBack calls arguments)
  | other => other

def Expr.listPutBack (calls : List FlattenedCall) : List Expr → List Expr
  | [] => []
  | argument :: arguments => argument.putBack calls :: Expr.listPutBack calls arguments

end

namespace Statement

def putBack (calls : List FlattenedCall) : Statement → Statement
  | .expression place (.binary span .assign left right) =>
    .expression place (.binary span .assign left (right.putBack calls))
  | .expression place (.cast span target operand) =>
    .expression place (.cast span target (operand.putBack calls))
  | .expression place value => .expression place (value.putBack calls)
  | .returnStatement place (some value) => .returnStatement place (some (value.putBack calls))
  | statement => statement

def dropsResult (targets : Association CType) (scope : Bindings) (statement : Statement) : Bool :=
  match statement.callSite? with
  | some (.whole, call) | some (.thrownAway, call) => reaches targets scope call
  | _ => false

end Statement

/-- What takes the place of a statement in a scope: a statement for each of its calls of visible
targets, in the order of evaluation, and what is left. -/
structure FlattensInOrder (targets : Association CType) (scope : Bindings) (entry : Statement)
    (calls : List FlattenedCall) (results : List Statement) : Prop where
  order : calls.map FlattenedCall.before = entry.callsInnerFirst.filter (reaches targets scope)
  inScope : ∀ call ∈ calls, call.scope = scope
  parts : ∃ statements left, results = statements ++ left ∧
    List.Forall₂ (fun call statement => ∃ place, statement = .expression place call.after) calls
      statements ∧
    left.map (Statement.putBack calls) = if entry.dropsResult targets scope then [] else [entry]
  arguments : ∀ call ∈ calls, Expr.listPutBack calls call.passed = call.arguments
  unchanged : calls = [] → results = [entry]

namespace Flatten

variable {targets : Association CType} {scope : Bindings} {entry : Statement}
  {calls lowered : List FlattenedCall} {results : List Statement}

/-! ### The order -/

variable {pieces : List (Expr × List FlattenedCall × Expr)}

theorem before_pieces (each : ∀ piece ∈ pieces, piece.2.1.map FlattenedCall.before =
      piece.1.callsInnerFirst.filter (reaches targets scope)) :
    (pieces.flatMap (·.2.1)).map FlattenedCall.before =
      (Expr.listCallsInnerFirst (pieces.map (·.1))).filter (reaches targets scope) := by
  induction pieces with
  | nil => rfl
  | cons piece pieces ih =>
    rw [List.forall_mem_cons] at each
    rw [List.flatMap_cons, List.map_append, each.1, ih each.2, List.map_cons,
      Expr.listCallsInnerFirst, List.filter_append]

variable {argument : Expr}

theorem Lowers.order {left : Expr} (lowers : Lowers targets scope argument lowered left) :
    lowered.map FlattenedCall.before = argument.callsInnerFirst.filter (reaches targets scope) := by
  induction lowers with
  | target span function pieces temporary isTarget each ih =>
    rw [List.map_append, before_pieces ih, Expr.callsInnerFirst, List.filter_append,
      List.filter_cons_of_pos isTarget]
    rfl
  | call span function pieces other each ih =>
    rw [before_pieces ih, Expr.callsInnerFirst, List.filter_append,
      List.filter_cons_of_neg (by simp [other]), List.filter_nil, List.append_nil]
  | @other argument noCall => cases argument <;> first | rfl | cases noCall

theorem LowersAll.order {arguments passed : List Expr}
    (all : LowersAll targets scope arguments lowered passed) : lowered.map FlattenedCall.before =
      (Expr.listCallsInnerFirst arguments).filter (reaches targets scope) := by
  obtain ⟨pieces, rfl, rfl, rfl, each⟩ := all
  exact before_pieces fun piece member => (each piece member).order

variable {position : CallPosition} {uses : List Use} {context : Expr → Statement}

theorem callsInnerFirst_of_site (site : Statement.IsSite position uses context) (span : Span)
    (function : Expr) (arguments : List Expr) : (context (.call span function arguments)).callsInnerFirst =
      Expr.listCallsInnerFirst arguments ++ [.call span function arguments] := by
  rw [Statement.callsInnerFirst, Statement.topCall?, site.callSite? rfl]
  rfl

/-! ### Calls put back -/

/-- Each temporary is that of one call, and the names that stand somewhere are none of them. -/
structure Apart (calls : List FlattenedCall) (names : List String) : Prop where
  distinct : (calls.map FlattenedCall.temporary).Nodup
  new : ∀ call ∈ calls, call.temporary ∉ names

theorem Apart.mono {names fewer : List String} (apart : Apart calls names) (among : fewer ⊆ names) :
    Apart calls fewer :=
  ⟨apart.distinct, fun call member found => apart.new call member (among found)⟩

theorem Apart.putBack_ofName {names : List String} (apart : Apart calls names) {call : FlattenedCall}
    (member : call ∈ calls) : (Expr.ofName call.temporary).putBack calls = call.before := by
  obtain ⟨found, isFound⟩ := Option.isSome_iff_exists.mp
    (List.find?_isSome (p := fun other => other.temporary == call.temporary).mpr
      ⟨call, member, beq_self_eq_true _⟩)
  have same : found.temporary = call.temporary := by simpa using List.find?_some isFound
  obtain rfl := List.inj_on_of_nodup_map apart.distinct (List.mem_of_find?_eq_some isFound) member same
  rw [Expr.ofName, Expr.putBack, isFound]
  rfl

theorem Apart.putBack_of_not_call
    (apart : Apart calls (Node.allNames argument.nodes)) (noCall : argument.isCall = false) :
    argument.putBack calls = argument := by
  cases argument with
  | identifier span name =>
    have none : calls.find? (fun call => call.temporary == name) = none := by
      refine List.find?_eq_none.mpr fun call member same => ?_
      exact apart.new call member (beq_iff_eq.mp same ▸ List.mem_singleton_self name)
    rw [Expr.putBack, none]
    rfl
  | call => cases noCall
  | _ => rfl

mutual

theorem putBack_nil : ∀ value : Expr, value.putBack [] = value
  | .identifier .. => rfl
  | .call span function arguments => by rw [Expr.putBack, listPutBack_nil arguments]
  | .intLiteral .. | .floatLiteral .. | .charLiteral .. | .stringLiteral .. | .binary .. | .unary ..
  | .member .. | .conditional .. | .cast .. | .sizeofExpr .. | .sizeofType ..
  | .compoundLiteral .. | .comma .. | .typeArgument .. => rfl

theorem listPutBack_nil : ∀ values : List Expr, Expr.listPutBack [] values = values
  | [] => rfl
  | value :: values => by rw [Expr.listPutBack, putBack_nil value, listPutBack_nil values]

end

theorem putBack_nil_statement (statement : Statement) : statement.putBack [] = statement := by
  unfold Statement.putBack
  split <;> simp only [putBack_nil]

theorem allNames_arguments (span : Span) (function : Expr) (arguments : List Expr) :
    Node.allNames (Expr.listNodes arguments) ⊆ Node.allNames (Expr.call span function arguments).nodes := by
  rw [Expr.nodes, ← List.singleton_append, Node.allNames_append, Node.allNames_append]
  exact List.subset_append_of_subset_right _ (List.subset_append_right _ _)

theorem allNames_piece {piece : Expr × List FlattenedCall × Expr} (member : piece ∈ pieces) :
    Node.allNames piece.1.nodes ⊆ Node.allNames (Expr.listNodes (pieces.map (·.1))) := by
  induction pieces with
  | nil => cases member
  | cons first pieces ih =>
    rw [List.map_cons, Expr.listNodes, Node.allNames_append]
    rcases List.mem_cons.mp member with rfl | member
    · exact List.subset_append_left _ _
    · exact List.subset_append_of_subset_right _ (ih member)

theorem listPutBack_pieces (each : ∀ piece ∈ pieces, piece.2.2.putBack calls = piece.1) :
    Expr.listPutBack calls (pieces.map (·.2.2)) = pieces.map (·.1) := by
  induction pieces with
  | nil => rfl
  | cons piece pieces ih =>
    rw [List.forall_mem_cons] at each
    rw [List.map_cons, Expr.listPutBack, each.1, ih each.2, List.map_cons]

/-- With the calls put back, what is left of an argument is the argument, and what the calls pass
are their arguments. -/
theorem Lowers.putBack {left : Expr} (lowers : Lowers targets scope argument lowered left)
    (apart : Apart calls (Node.allNames argument.nodes)) (among : lowered ⊆ calls) :
    left.putBack calls = argument ∧
      ∀ call ∈ lowered, Expr.listPutBack calls call.passed = call.arguments := by
  induction lowers with
  | target span function pieces temporary isTarget each ih =>
    obtain ⟨inside, own⟩ := List.append_subset.mp among
    have parts := fun piece member => ih piece member
      (apart.mono (List.Subset.trans (allNames_piece member) (allNames_arguments span function _)))
      fun call found => inside (List.mem_flatMap.mpr ⟨piece, member, found⟩)
    refine ⟨apart.putBack_ofName (own (List.mem_singleton_self _)), ?_⟩
    refine List.forall_mem_append.mpr ⟨fun call found => ?_, List.forall_mem_singleton.mpr ?_⟩
    · obtain ⟨piece, member, found⟩ := List.mem_flatMap.mp found
      exact (parts piece member).2 call found
    · exact listPutBack_pieces fun piece member => (parts piece member).1
  | call span function pieces other each ih =>
    have parts := fun piece member => ih piece member
      (apart.mono (List.Subset.trans (allNames_piece member) (allNames_arguments span function _)))
      fun call found => among (List.mem_flatMap.mpr ⟨piece, member, found⟩)
    refine ⟨?_, fun call found => ?_⟩
    · rw [Expr.putBack, listPutBack_pieces fun piece member => (parts piece member).1]
    · obtain ⟨piece, member, found⟩ := List.mem_flatMap.mp found
      exact (parts piece member).2 call found
  | other noCall => exact ⟨apart.putBack_of_not_call noCall, by simp⟩

theorem LowersAll.putBack {arguments passed : List Expr}
    (all : LowersAll targets scope arguments lowered passed)
    (apart : Apart calls (Node.allNames (Expr.listNodes arguments))) (among : lowered ⊆ calls) :
    Expr.listPutBack calls passed = arguments ∧
      ∀ call ∈ lowered, Expr.listPutBack calls call.passed = call.arguments := by
  obtain ⟨pieces, rfl, rfl, rfl, each⟩ := all
  have parts := fun piece member => (each piece member).putBack (apart.mono (allNames_piece member))
    fun call found => among (List.mem_flatMap.mpr ⟨piece, member, found⟩)
  refine ⟨listPutBack_pieces fun piece member => (parts piece member).1, fun call found => ?_⟩
  obtain ⟨piece, member, found⟩ := List.mem_flatMap.mp found
  exact (parts piece member).2 call found

theorem putBack_site (site : Statement.IsSite position uses context) {value : Expr}
    (simple : value.isCall ∨ value.identifier?.isSome) :
    (context value).putBack calls = context (value.putBack calls) := by
  cases value with
  | identifier | call => cases site <;> rfl
  | _ => simp [Expr.isCall, Expr.identifier?] at simple

theorem allNames_site (site : Statement.IsSite position uses context) (call : Expr) :
    Node.allNames call.nodes ⊆ Node.allNames (context call).nodes := by
  intro name found
  have inside : call.nodes ⊆ (context call).nodes := by
    cases site with
    | whole | returned => exact List.subset_cons_self _ _
    | assigned | thrownAway =>
      exact List.subset_cons_of_subset _ (List.subset_cons_of_subset _ (List.subset_append_right _ _))
  obtain ⟨node, member, stands⟩ := List.mem_flatMap.mp found
  exact List.mem_flatMap.mpr ⟨node, inside member, stands⟩

theorem dropsResult_of_site
    (site : Statement.IsSite position uses context) {call : Expr} (isCall : call.isCall) :
    (context call).dropsResult targets scope =
      ((position == .whole || position == .thrownAway) && reaches targets scope call) := by
  unfold Statement.dropsResult
  rw [site.callSite? isCall]
  cases position <;> rfl

/-- What the call of a statement leaves behind itself is the statement with the call put back, unless
nothing takes what the call returns. -/
theorem putBack_afterCall (site : Statement.IsSite position uses context) {call : FlattenedCall}
    (isTarget : reaches targets scope call.before)
    (back : (Expr.ofName call.temporary).putBack calls = call.before) :
    (afterCall call.temporary position (context call.before)).map (Statement.putBack calls) =
      if (context call.before).dropsResult targets scope then [] else [context call.before] := by
  rw [dropsResult_of_site site rfl, isTarget, Bool.and_true]
  have left (replaces : (context call.before).replaceTopCall (.ofName call.temporary) =
      context (.ofName call.temporary)) :
      [(context call.before).replaceTopCall (.ofName call.temporary)].map (Statement.putBack calls) =
        [context call.before] := by
    rw [replaces, List.map_singleton, putBack_site site (.inr rfl), back]
  have isCall : call.before.isCall := rfl
  have replaces := site.replaceTopCall isCall (.ofName call.temporary)
  cases position with
  | assigned | returned => exact left replaces
  | whole | thrownAway => rfl

/-- The calls that have been taken out of a statement stand in the order of evaluation, and the
statement is left without them. -/
theorem TakesApart.flattensInOrder (taken : TakesApart targets scope entry calls results)
    (apart : Apart calls (Node.allNames entry.nodes)) :
    FlattensInOrder targets scope entry calls results := by
  have inScope := fun call member => (taken.lowering.reached call member).1
  have statements (lowered : List FlattenedCall) : List.Forall₂
        (fun call statement => ∃ place, statement = Statement.expression place call.after)
        lowered (lowered.map fun call => Statement.ofExpr call.after) := by
    rw [List.forall₂_map_right_iff, List.forall₂_same]
    exact fun call _ => ⟨.synthetic, rfl⟩
  cases taken with
  | stays noCall =>
    have nothing : entry.callsInnerFirst = [] := by
      rw [Statement.callsInnerFirst, Statement.topCall?, noCall]
      rfl
    have kept : entry.dropsResult targets scope = false := by
      rw [Statement.dropsResult, noCall]
    refine ⟨by rw [nothing]; rfl, inScope, ⟨[], [entry], rfl, .nil, ?_⟩, by simp, fun _ => rfl⟩
    rw [kept, List.map_singleton, putBack_nil_statement]
    rfl
  | @beside _ _ _ context site span function arguments passed lowered other all =>
    have within :=
      List.Subset.trans (allNames_arguments span function arguments) (allNames_site site _)
    obtain ⟨back, inside⟩ := all.putBack (apart.mono within) (List.Subset.refl _)
    refine ⟨?_, inScope, ⟨_, _, rfl, statements calls, ?_⟩, inside, fun nothing => ?_⟩
    · rw [callsInnerFirst_of_site site, List.filter_append,
        List.filter_cons_of_neg (by simp [other]), List.filter_nil, List.append_nil, all.order]
    · rw [dropsResult_of_site site rfl, other, Bool.and_false, List.map_singleton,
        putBack_site site (.inl rfl), Expr.putBack, back]
      rfl
    · subst nothing
      rw [listPutBack_nil] at back
      rw [back]
      rfl
  | @taken _ _ _ context site span function arguments passed lowered isTarget all temporary =>
    have within :=
      List.Subset.trans (allNames_arguments span function arguments) (allNames_site site _)
    obtain ⟨back, inside⟩ := all.putBack (apart.mono within) (List.subset_append_left _ _)
    refine ⟨?_, inScope, ⟨lowered.map (fun call => .ofExpr call.after) ++ [_], _,
      (List.append_cons ..), ?_, ?_⟩, ?_, fun impossible => by simp at impossible⟩
    · rw [callsInnerFirst_of_site site, List.filter_append, List.filter_cons_of_pos isTarget,
        List.map_append, all.order]
      rfl
    · exact List.rel_append (statements lowered) (.cons ⟨_, rfl⟩ .nil)
    · have putBack := apart.putBack_ofName (List.mem_append_right lowered
        (List.mem_singleton_self (⟨scope, span, function, arguments, temporary, passed⟩ : FlattenedCall)))
      exact putBack_afterCall site isTarget putBack
    · exact List.forall_mem_append.mpr ⟨inside, List.forall_mem_singleton.mpr back⟩

/-! ### How often a temporary is mentioned -/

def mentions (name : String) (nodes : List Node) : Nat := (Node.allNames nodes).count name

section Mentions

variable {name : String}

@[simp] theorem mentions_nil : mentions name [] = 0 := rfl

@[simp] theorem mentions_append (first second : List Node) :
    mentions name (first ++ second) = mentions name first + mentions name second := by
  rw [mentions, Node.allNames_append, List.count_append]
  rfl

theorem mentions_cons (node : Node) (nodes : List Node) :
    mentions name (node :: nodes) = node.names.count name + mentions name nodes :=
  List.count_append

theorem mentions_eq_zero {nodes : List Node} (absent : name ∉ Node.allNames nodes) :
    mentions name nodes = 0 :=
  List.count_eq_zero.mpr absent

@[simp] theorem mentions_ofName (temporary : String) :
    mentions name (Expr.ofName temporary).nodes = [temporary].count name := rfl

@[simp] theorem mentions_call (span : Span) (function : Expr) (arguments : List Expr) :
    mentions name (Expr.call span function arguments).nodes =
      mentions name function.nodes + mentions name (Expr.listNodes arguments) := by
  rw [Expr.nodes, mentions_cons, mentions_append]
  simp [Node.names]

theorem mentions_after (call : FlattenedCall) :
    mentions name call.after.nodes = mentions name call.function.nodes +
      ([call.temporary].count name + mentions name (Expr.listNodes call.passed)) := by
  have address : mentions name (Expr.ofName call.temporary).addressOf.nodes =
      [call.temporary].count name := by
    rw [Expr.addressOf, Expr.nodes, mentions_cons]
    simp [Node.names]
  rw [FlattenedCall.after, mentions_call, Expr.listNodes, mentions_append, address]

def mentionsAfter (name : String) (lowered : List FlattenedCall) : Nat :=
  mentions name (lowered.flatMap fun call => call.after.nodes)

@[simp] theorem mentionsAfter_append (first second : List FlattenedCall) :
    mentionsAfter name (first ++ second) = mentionsAfter name first + mentionsAfter name second := by
  simp [mentionsAfter]

theorem mentions_pieces {pieces : List (Expr × List FlattenedCall × Expr)}
    (each : ∀ piece ∈ pieces, mentions name piece.2.2.nodes + mentionsAfter name piece.2.1 =
      2 * (piece.2.1.map FlattenedCall.temporary).count name) :
    mentions name (Expr.listNodes (pieces.map (·.2.2))) + mentionsAfter name (pieces.flatMap (·.2.1)) =
      2 * ((pieces.flatMap (·.2.1)).map FlattenedCall.temporary).count name := by
  induction pieces with
  | nil => rfl
  | cons piece pieces ih =>
    rw [List.forall_mem_cons] at each
    have others := ih each.2
    rw [List.map_cons, Expr.listNodes, mentions_append, List.flatMap_cons, mentionsAfter_append,
      List.map_append, List.count_append]
    omega

theorem Lowers.mentions {argument left : Expr} (lowers : Lowers targets scope argument lowered left)
    (absent : name ∉ Node.allNames argument.nodes) : mentions name left.nodes + mentionsAfter name lowered =
      2 * (lowered.map FlattenedCall.temporary).count name := by
  induction lowers with
  | target span function pieces temporary isTarget each ih =>
    have inside := mentions_pieces fun piece member => ih piece member fun found =>
      absent (allNames_arguments span function _ (allNames_piece member found))
    have callee : Flatten.mentions name function.nodes = 0 := by
      have whole := mentions_eq_zero absent
      rw [mentions_call] at whole
      omega
    simp only [mentionsAfter_append, List.map_append, List.count_append, mentions_ofName]
    simp only [mentionsAfter, List.map_singleton, List.flatMap_singleton, mentions_after, callee] at inside ⊢
    omega
  | call span function pieces other each ih =>
    have inside := mentions_pieces fun piece member => ih piece member fun found =>
      absent (allNames_arguments span function _ (allNames_piece member found))
    have whole := mentions_eq_zero absent
    rw [mentions_call] at whole
    rw [mentions_call]
    omega
  | other noCall =>
    rw [mentions_eq_zero absent]
    rfl

theorem LowersAll.mentions {arguments passed : List Expr}
    (all : LowersAll targets scope arguments lowered passed)
    (absent : name ∉ Node.allNames (Expr.listNodes arguments)) :
    mentions name (Expr.listNodes passed) + mentionsAfter name lowered =
      2 * (lowered.map FlattenedCall.temporary).count name := by
  obtain ⟨pieces, rfl, rfl, rfl, each⟩ := all
  exact mentions_pieces fun piece member =>
    (each piece member).mentions fun found => absent (allNames_piece member found)

theorem mentions_listNodes_append (first second : List Statement) :
    mentions name (Statement.listNodes (first ++ second)) =
      mentions name (Statement.listNodes first) + mentions name (Statement.listNodes second) := by
  rw [Statement.listNodes_append, mentions_append]

theorem mentions_statements (lowered : List FlattenedCall) :
    mentions name (Statement.listNodes (lowered.map fun call => Statement.ofExpr call.after)) =
      mentionsAfter name lowered := by
  induction lowered with
  | nil => rfl
  | cons call lowered ih =>
    rw [List.map_cons, Statement.listNodes, mentions_append, ih, Statement.ofExpr, Statement.nodes,
      mentions_cons]
    simp [mentionsAfter, Node.names]

theorem mentions_site {position : CallPosition} {uses : List Use} {context : Expr → Statement}
    (site : Statement.IsSite position uses context) {call : Expr}
    (absent : name ∉ Node.allNames (context call).nodes) (value : Expr) :
    mentions name (context value).nodes = mentions name value.nodes := by
  have nothing := mentions_eq_zero absent
  cases site with
  | whole | returned => simp [Statement.nodes, optionalNodes, mentions_cons, Node.names]
  | assigned | thrownAway =>
    simp only [Statement.nodes, Expr.nodes, mentions_cons, mentions_append, Node.names,
      List.count_nil] at nothing ⊢
    omega

theorem mentions_listNodes_singleton (statement : Statement) :
    mentions name (Statement.listNodes [statement]) = mentions name statement.nodes := by
  rw [Statement.listNodes, Statement.listNodes, List.append_nil]

theorem TakesApart.mentions (taken : TakesApart targets scope entry calls results)
    (absent : name ∉ Node.allNames entry.nodes) : mentions name (Statement.listNodes results) ≤
      2 * (calls.map FlattenedCall.temporary).count name := by
  cases taken with
  | stays =>
    rw [mentions_listNodes_singleton, mentions_eq_zero absent]
    exact Nat.zero_le _
  | @beside _ _ _ context site span function arguments passed lowered other all =>
    have inside := all.mentions fun found =>
      absent (allNames_site site _ (allNames_arguments span function _ found))
    have callee := mentions_eq_zero fun found => absent (allNames_site site _ found)
    rw [mentions_call] at callee
    rw [mentions_listNodes_append, mentions_statements, mentions_listNodes_singleton,
      mentions_site site absent, mentions_call]
    omega
  | @taken _ position _ context site span function arguments passed lowered isTarget all temporary =>
    have inside := all.mentions fun found =>
      absent (allNames_site site _ (allNames_arguments span function _ found))
    have callee := mentions_eq_zero fun found => absent (allNames_site site _ found)
    rw [mentions_call] at callee
    have written : Flatten.mentions name _ = _ :=
      mentions_after ⟨scope, span, function, arguments, temporary, passed⟩
    have left : Flatten.mentions name (Statement.listNodes (afterCall temporary position
        (context (.call span function arguments)))) ≤ [temporary].count name := by
      have isCall : (Expr.call span function arguments).isCall := rfl
      have replaces := site.replaceTopCall isCall (.ofName temporary)
      cases position with
      | assigned | returned =>
        rw [afterCall, replaces, mentions_listNodes_singleton, mentions_site site absent]
        exact Nat.le_of_eq (mentions_ofName temporary)
      | whole | thrownAway => exact Nat.zero_le _
    rw [mentions_listNodes_append, mentions_statements, Statement.listNodes, mentions_append,
      Statement.nodes, mentions_cons, List.map_append, List.count_append]
    simp only [FlattenedCall.after] at written
    simp only [written, Node.names, List.count_nil, List.map_singleton] at inside ⊢
    omega

theorem mentions_withBodies {bodies : List Statement}
    (fits : (entry.withBodies bodies).bodies = bodies) (absent : name ∉ Node.allNames entry.nodes) :
    mentions name (entry.withBodies bodies).nodes = mentions name (Statement.listNodes bodies) := by
  have nothing := mentions_eq_zero absent
  conv_rhs => rw [← fits]
  cases entry with
  | ifElse span condition thenBranch elseBranch =>
    cases elseBranch <;>
      simp only [Statement.withBodies, Statement.bodies, Statement.nodes, Statement.optionNodes,
        Statement.listNodes, mentions_cons, mentions_append, mentions_nil, Node.names,
        List.count_nil] at nothing ⊢ <;>
      omega
  | forLoop span init condition update body =>
    cases init <;>
      simp only [Statement.withBodies, Statement.bodies, Statement.nodes, Statement.optionNodes,
        Statement.listNodes, mentions_cons, mentions_append, mentions_nil, Node.names,
        List.count_nil] at nothing ⊢ <;>
      omega
  | breakStatement | continueStatement | empty => rfl
  | _ =>
    simp only [Statement.withBodies, Statement.bodies, Statement.nodes, Statement.listNodes,
      mentions_cons, mentions_append, mentions_nil, Node.names, List.count_nil] at nothing ⊢
    omega

theorem mentions_recast {σ : Type} {scoping : Scoping σ} {rule : StatementRule σ FlattenedCall}
    {scope : σ} {entries results : List Statement} {calls : List FlattenedCall}
    (bounded : ∀ scope entry own results, rule scope entry own results →
      name ∉ Node.allNames entry.nodes → mentions name (Statement.listNodes results) ≤
        2 * (own.map FlattenedCall.temporary).count name)
    (recast : Recast scoping rule scope entries calls results)
    (absent : name ∉ Node.allNames (Statement.listNodes entries)) :
    mentions name (Statement.listNodes results) ≤ 2 * (calls.map FlattenedCall.temporary).count name := by
  have apart {entry : Statement} {entries : List Statement}
      (absent : name ∉ Node.allNames (Statement.listNodes (entry :: entries))) :
      name ∉ Node.allNames entry.nodes ∧ name ∉ Node.allNames (Statement.listNodes entries) := by
    rwa [Statement.listNodes, Node.allNames_append, List.mem_append, not_or] at absent
  induction recast with
  | nil => exact Nat.zero_le _
  | plain isPlain becomes arePlain _ ih =>
    obtain ⟨here, behind⟩ := apart absent
    have first := bounded _ _ _ _ becomes here
    have others := ih behind
    rw [mentions_listNodes_append, List.map_append, List.count_append]
    omega
  | @around scope entry _ _ _ bodies _ notPlain inside fits sameScope _ insideIh ih =>
    obtain ⟨here, behind⟩ := apart absent
    have within : name ∉ Node.allNames (Statement.listNodes entry.bodies) := by
      have own := mentions_withBodies (congrArg Statement.bodies entry.withBodies_bodies) here
      rw [entry.withBodies_bodies, mentions_eq_zero here] at own
      exact List.count_eq_zero.mp own.symm
    have first := insideIh within
    have others := ih behind
    rw [Statement.listNodes, mentions_append, mentions_withBodies fits here, List.map_append,
      List.count_append]
    omega

end Mentions

/-! ### The calls of a function -/

def isVisible (targets : Association CType) (scope : Bindings) (name : String) : Bool :=
  targets.contains name && !scope.hides name

theorem callees_placedAt {uses : List (Use × UsePlace)}
    (positioned : ∀ occurrence ∈ Occurrence.placedAt scope true uses,
      callsTarget targets occurrence → occurrence.isPositioned) :
    ((Occurrence.placedAt scope true uses).filter (callsTarget targets)).map
        (fun occurrence => (occurrence.scope, occurrence.use.name)) =
      ((uses.filterMap Use.positionedCallee?).filter (isVisible targets scope)).map (Prod.mk scope) := by
  induction uses with
  | nil => rfl
  | cons placed uses ih =>
    obtain ⟨use, place⟩ := placed
    obtain ⟨first, others⟩ := List.forall_mem_cons.mp positioned
    have rest := ih others
    change ((⟨use, place, true, scope⟩ :: Occurrence.placedAt scope true uses).filter
      (callsTarget targets)).map _ = _
    cases use with
    | mentioned name =>
      rw [List.filter_cons_of_neg (by simp [callsTarget]), rest,
        List.filterMap_cons_none (by simp [Use.positionedCallee?, Use.callee?])]
    | called name =>
      cases isTarget : callsTarget targets ⟨.called name, place, true, scope⟩ with
      | true =>
        have placed : place ≠ .elsewhere := by simpa [Occurrence.isPositioned] using first isTarget
        have named : Use.positionedCallee? (.called name, place) = some name := by
          simp [Use.positionedCallee?, Use.callee?, placed]
        have visible : isVisible targets scope name := isTarget
        rw [List.filter_cons_of_pos isTarget, List.map_cons, rest, List.filterMap_cons_some named,
          List.filter_cons_of_pos visible, List.map_cons]
        rfl
      | false =>
        rw [List.filter_cons_of_neg (by simp [isTarget]), rest]
        cases named : Use.positionedCallee? (.called name, place) with
        | none => rw [List.filterMap_cons_none named]
        | some other =>
          have same : name = other := by
            simpa [Use.positionedCallee?, Use.callee?] using (Option.ite_none_left_eq_some.mp named).2
          subst same
          rw [List.filterMap_cons_some named]
          have hidden : ¬ isVisible targets scope name := Bool.eq_false_iff.mp isTarget
          rw [List.filter_cons_of_neg hidden]

theorem callees_reached (calls : List Expr) : (calls.filter (reaches targets scope)).filterMap Expr.callee? =
      (calls.filterMap Expr.callee?).filter (isVisible targets scope) := by
  induction calls with
  | nil => rfl
  | cons call calls ih =>
    cases named : call.callee? with
    | none =>
      rw [List.filter_cons_of_neg (by simp [reaches, named]), ih, List.filterMap_cons_none named]
    | some name =>
      have visible : reaches targets scope call = isVisible targets scope name := by
        rw [reaches, named]
        rfl
      rw [List.filterMap_cons_some named, List.filter_cons, List.filter_cons, visible]
      split
      · rw [List.filterMap_cons_some named, ih]
      · exact ih

def targetCalls (targets : Association CType) (function : Function) : List (Bindings × String) :=
  ((function.occurrences (.bindings targets.contains)).filter (callsTarget targets)).map
    fun occurrence => (occurrence.scope, occurrence.use.name)

theorem targetCalls_eq {function : Function}
    (positioned : ∀ occurrence ∈ function.occurrences (.bindings targets.contains),
      callsTarget targets occurrence → occurrence.isPositioned) : targetCalls targets function =
      (reachedCalls targets (function.standing (.bindings targets.contains))).filterMap
        fun call => call.2.callee?.map (Prod.mk call.1) := by
  have inBlocks : (function.occurrences (.bindings targets.contains)).filter (callsTarget targets) =
      ((function.body.occurrences (.bindings targets.contains) false
        ((Scoping.bindings targets.contains).ofFunction function)).filter (·.inBlock)).filter
          (callsTarget targets) := by
    obtain ⟨head, inBody⟩ := List.forall_mem_append.mp positioned
    have nothing : (Occurrence.elsewhereAt ((Scoping.bindings targets.contains).ofFunction function)
        (function.result.uses ++ Parameter.listUses function.parameters)).filter
          (callsTarget targets) = [] := by
      refine List.filter_eq_nil_iff.mpr fun occurrence member isTarget => ?_
      have place := head occurrence member isTarget
      obtain ⟨use, -, rfl⟩ := List.mem_map.mp member
      cases place
    rw [Function.occurrences, List.filter_append, nothing, List.nil_append, List.filter_filter]
    refine List.filter_congr fun occurrence member => ?_
    cases isTarget : callsTarget targets occurrence with
    | false => rfl
    | true =>
      have place := inBody occurrence member isTarget
      rw [Occurrence.isPositioned, Bool.and_eq_true] at place
      rw [place.1]
      rfl
  have stands : (function.body.occurrences (.bindings targets.contains) false
      ((Scoping.bindings targets.contains).ofFunction function)).filter (·.inBlock) = _ :=
    function.body.inBlock_occurrences false _
  rw [targetCalls, inBlocks, stands, reachedCalls, List.filterMap_flatMap, List.filter_flatMap,
    List.map_flatMap]
  refine List.flatMap_congr fun site member => ?_
  rw [callees_placedAt, Statement.positioned_ownUses, ← callees_reached, List.filterMap_map,
    List.map_filterMap]
  · rfl
  · intro occurrence found isTarget
    refine positioned occurrence (List.mem_append_right _ ?_) isTarget
    have inside : occurrence ∈ (function.body.occurrences (.bindings targets.contains) false
        ((Scoping.bindings targets.contains).ofFunction function)).filter (·.inBlock) :=
      stands ▸ List.mem_flatMap.mpr ⟨site, member, found⟩
    exact (List.mem_filter.mp inside).1

end Flatten

open Flatten (mentions targetCalls)

/-- A function behind flattening: in its blocks the calls of targets stand in front of what is left
of the statements, in order. They are all such calls of the function, and the temporaries at the start
of the body are theirs, with a type for what is returned. Besides the statement that writes it, no
temporary is mentioned more than once. -/
structure Function.KeepsEachCall (targets : Association CType) (function result : Function)
    (objects : List Declaration) (calls : List FlattenedCall) : Prop where
  body : ∃ body : Statement, body.isBlock ∧
    Recast (.bindings targets.contains) (FlattensInOrder targets)
      ((Scoping.bindings targets.contains).ofFunction function) [function.body] calls [body] ∧
    result = { function with body := body.precededBy (objects.map Statement.ofDeclaration) } ∧
    ∀ call ∈ calls, mentions call.temporary body.nodes ≤ 2
  every : (calls.filterMap fun call => call.before.callee?.map (Prod.mk call.scope)).Perm
    (targetCalls targets function)
  temporaries : objects.Perm (calls.map (FlattenedCall.object targets))
  distinct : (objects.map Declaration.name).Nodup
  typed : ∀ call ∈ calls, ∃ callee type, call.before.callee? = some callee ∧
    targets.find? callee = some type ∧
      call.object targets = .ofVariable call.temporary type.valueType
  written : callStatements targets (result.standing (.bindings targets.contains)) =
    calls.map fun call => (call.scope, call.after)

theorem FlattenedCall.object_of_reaches {targets : Association CType} {call : FlattenedCall}
    {scope : Bindings} (isTarget : reaches targets scope call.before) :
    ∃ callee type, call.before.callee? = some callee ∧ targets.find? callee = some type ∧
      call.object targets = .ofVariable call.temporary type.valueType := by
  rw [reaches] at isTarget
  cases named : call.before.callee? with
  | none =>
    rw [named] at isTarget
    cases isTarget
  | some callee =>
    rw [named] at isTarget
    obtain ⟨type, found⟩ := Option.isSome_iff_exists.mp (Bool.and_eq_true_iff.mp isTarget).1
    refine ⟨callee, type, rfl, found, ?_⟩
    rw [object, Expr.resultObject, named, Option.bind_some, found]
    rfl

/-- Flattening keeps every call of a target, once, in the order of evaluation. -/
theorem Function.flattenCalls_keepsEachCall {function : Function} {targets : Association CType}
    {registry : Registry} (braced : function.body.Braced) (isBlock : function.body.isBlock)
    (positioned : ∀ occurrence ∈ function.occurrences (.bindings targets.contains),
      callsTarget targets occurrence → occurrence.isPositioned)
    (identifiers : Node.allNames function.nodes ⊆ registry.used)
    (names : ∀ name, targets.contains name → name ∈ registry.used) :
    ∃ calls, function.KeepsEachCall targets (function.flattenCalls targets registry).1
      (function.temporaries targets registry) calls := by
  obtain ⟨calls, apart⟩ := Function.flattenCalls_takenApart braced isBlock identifiers
  have flattens := apart.flattensAll braced isBlock (function.temporaries_unknown names)
  obtain ⟨⟨body, bodyBlock, recast, result⟩, objects⟩ := apart
  obtain ⟨_, flattening⟩ := function.flattenCalls_flattening_temporaries targets registry
  have named : ((function.temporaries targets registry).map Declaration.name).Perm
      (calls.map FlattenedCall.temporary) := by
    have names := objects.map Declaration.name
    rwa [List.map_map] at names
  have distinct := named.nodup_iff.mp flattening.issues.unique
  have new : ∀ call ∈ calls, call.temporary ∉ Node.allNames function.body.nodes :=
    fun call member found => flattening.issues.fresh _
      (named.mem_iff.mpr (List.mem_map_of_mem member)) (identifiers (function.allNames_body found))
  have ordered : Recast (.bindings targets.contains) (FlattensInOrder targets)
      ((Scoping.bindings targets.contains).ofFunction function) [function.body] calls [body] := by
    refine recast.mono (List.forall_mem_singleton.mpr braced) fun site stands own results among rule =>
      rule.flattensInOrder ⟨distinct.sublist (among.map _), fun call member found => ?_⟩
    rw [Statement.listStanding_singleton isBlock] at stands
    obtain ⟨node, inside, named⟩ := List.mem_flatMap.mp found
    exact new call (among.subset member) (List.mem_flatMap.mpr
      ⟨node, function.body.nodes_standing _ _ site stands inside, named⟩)
  have reached : ∀ call ∈ calls, reaches targets call.scope call.before := by
    intro call member
    have found := flattens.before.subset (List.mem_map_of_mem member)
    obtain ⟨site, -, inside⟩ := List.mem_flatMap.mp found
    obtain ⟨direct, among, same⟩ := List.mem_map.mp inside
    obtain ⟨sameScope, rfl⟩ := Prod.mk.inj same
    exact sameScope ▸ (List.mem_filter.mp among).2
  refine ⟨calls, ⟨body, bodyBlock, ordered, result, fun call member => ?_⟩, ?_, objects,
    flattening.issues.unique, fun call member => FlattenedCall.object_of_reaches (reached call member),
    flattens.after⟩
  · have once := List.count_eq_one_of_mem distinct (List.mem_map_of_mem member)
    have bound := Flatten.mentions_recast (fun _ _ _ _ rule absent => rule.mentions absent) recast
      (by rw [Statement.listNodes, Statement.listNodes, List.append_nil]; exact new call member)
    rw [Flatten.mentions_listNodes_singleton, once] at bound
    exact bound
  · have same := (flattens.before.filterMap fun call => call.2.callee?.map (Prod.mk call.1))
    rw [← Flatten.targetCalls_eq positioned, List.filterMap_map] at same
    exact same

theorem Function.flattenCalls_keepsEachCall_nested :
    ∃ unit, CompilationUnit.parse
        "int f(int x) \x7b x = g(h(1), k(h(2))); if (x) (void) g(x, h(3)); return g(k(x), 1); \x7d" =
          .ok unit ∧
      ∃ function ∈ unit.functions.map Function.normalize,
        ∃ targets : Association CType, ∃ registry : Registry,
          (function.body.Braced ∧ function.body.isBlock ∧
            (∀ occurrence ∈ function.occurrences (.bindings targets.contains),
              callsTarget targets occurrence → occurrence.isPositioned) ∧
            Node.allNames function.nodes ⊆ registry.used ∧
            ∀ name, targets.contains name → name ∈ registry.used) ∧
          (targetCalls targets function).map Prod.snd = ["g", "h", "h", "g", "h", "g"] ∧
          ∃ calls, function.KeepsEachCall targets (function.flattenCalls targets registry).1
            (function.temporaries targets registry) calls := by
  let targets : Association CType := [("g", .basic .int), ("h", .pointer {} (.basic .char))]
  refine CompilationUnit.exists_parsed _
    (fun unit => decide (∃ function ∈ unit.functions.map Function.normalize,
      (∀ occurrence ∈ function.occurrences (.bindings targets.contains),
        callsTarget targets occurrence → occurrence.isPositioned) ∧
      (targetCalls targets function).map Prod.snd = ["g", "h", "h", "g", "h", "g"]))
    (by decide +kernel) ?_
  intro unit parses checked
  obtain ⟨function, member, positioned, called⟩ := of_decide_eq_true checked
  let registry : Registry := ⟨"g" :: "h" :: Node.allNames function.nodes, 0, 0⟩
  obtain ⟨source, among, rfl⟩ := List.mem_map.mp member
  have formed := CompilationUnit.isFormed_of_parse parses source among
  have braced := Function.braced_normalize formed.2
  have isBlock := Function.isBlock_normalize formed.1
  have identifiers : Node.allNames source.normalize.nodes ⊆ registry.used :=
    List.subset_cons_of_subset _ (List.subset_cons_self _ _)
  have names : ∀ name, targets.contains name → name ∈ registry.used := by
    intro name isTarget
    obtain ⟨result, found⟩ := Option.isSome_iff_exists.mp isTarget
    have entry := Association.mem_of_find? _ found
    simp only [targets, List.mem_cons, Prod.mk.injEq, List.not_mem_nil, or_false] at entry
    obtain ⟨rfl, -⟩ | ⟨rfl, -⟩ := entry <;> simp [registry]
  exact ⟨_, member, targets, registry, ⟨braced, isBlock, positioned, identifiers, names⟩, called,
    Function.flattenCalls_keepsEachCall braced isBlock positioned identifiers names⟩

end InlineMacro
