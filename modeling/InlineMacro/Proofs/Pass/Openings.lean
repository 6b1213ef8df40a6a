import InlineMacro.Proofs.Pass.RenameWords
import InlineMacro.Proofs.Pass.Rewriting
import InlineMacro.Proofs.Run.Preparation

/-!
# The opening of the body of a macro

Renaming opens a body with the copies of arguments. The passes behind it put other statements only in
the places of plain ones and at the end, so the copies stay where they are, and none of the arguments
comes to stand in the rest.
-/

set_option autoImplicit false

namespace InlineMacro

open Node (Within)
open Text (IsWhole)

variable {word new : Word → Prop} {copies : List Declaration}

/-! ## Bodies that open with declarations -/

namespace Statement

def OpensWith (copies : List Declaration) (word : Word → Prop) (body : Statement) : Prop :=
  ∃ span rest, body = .block span (copies.map .ofDeclaration ++ rest) ∧
    ∀ statement ∈ rest, Within word statement.nodes

variable {results : List Statement}

theorem Rewritten.of_declaration {declared : Declaration}
    (rewritten : Rewritten new true (.ofDeclaration declared) results) :
    results = [.ofDeclaration declared] := by
  cases rewritten with
  | kept inside =>
    cases inside
    rfl
  | replaced plain => cases plain

theorem RewrittenAll.refl (entries : List Statement) : RewrittenAll new entries entries := by
  induction entries with
  | nil => exact .nil
  | cons entry entries ih => exact .cons (.kept (.same entry)) ih

theorem Rewritten.of_block {entry : Statement}
    (rewritten : Rewritten new false entry results) {span : Span} {entries : List Statement}
    (same : entry = .block span entries) :
    ∃ others, results = [.block span others] ∧ RewrittenAll new entries others := by
  cases rewritten with
  | same => exact ⟨entries, by rw [same], .refl entries⟩
  | block given pieces each =>
    cases same
    exact ⟨_, rfl, pieces, rfl, rfl, each⟩
  | _ => cases same

theorem RewrittenAll.of_append {first rest : List Statement}
    (all : RewrittenAll new (first ++ rest) results) :
    ∃ former latter, results = former ++ latter ∧ RewrittenAll new first former ∧
      RewrittenAll new rest latter := by
  obtain ⟨pieces, split, rfl, each⟩ := all
  obtain ⟨former, latter, rfl, rfl, rfl⟩ := List.map_eq_append_iff.mp split
  rw [List.forall_mem_append] at each
  exact ⟨_, _, List.flatMap_append, ⟨former, rfl, rfl, each.1⟩, ⟨latter, rfl, rfl, each.2⟩⟩

theorem RewrittenAll.of_declarations (all : RewrittenAll new (copies.map .ofDeclaration) results) :
    results = copies.map .ofDeclaration := by
  obtain ⟨pieces, same, rfl, each⟩ := all
  induction copies generalizing pieces with
  | nil => rw [List.map_eq_nil_iff.mp same, List.flatMap_nil, List.map_nil]
  | cons copied copies ih =>
    obtain ⟨⟨entry, becomes⟩, others, rfl, rfl, rest⟩ := List.map_eq_cons_iff.mp same
    rw [List.forall_mem_cons] at each
    rw [List.flatMap_cons, ih others rest each.2, Rewritten.of_declaration each.1]
    rfl

namespace OpensWith

variable {body result : Statement}

theorem rewritten (opens : body.OpensWith copies word)
    (words : ∀ given, new given → word given)
    (rewritten : Rewritten new false body [result]) : result.OpensWith copies word := by
  obtain ⟨span, rest, rfl, within⟩ := opens
  obtain ⟨others, same, all⟩ := rewritten.of_block rfl
  cases same
  obtain ⟨former, latter, rfl, first, behind⟩ := all.of_append
  rw [first.of_declarations]
  obtain ⟨pieces, rfl, rfl, each⟩ := behind
  refine ⟨span, _, rfl, fun statement member => ?_⟩
  obtain ⟨piece, among, found⟩ := List.mem_flatMap.mp member
  exact (each piece among).within words (within _ (List.mem_map_of_mem among)) _ found

theorem mono {wider : Word → Prop} (opens : body.OpensWith copies word)
    (words : ∀ given, word given → wider given) : body.OpensWith copies wider := by
  obtain ⟨span, rest, rfl, within⟩ := opens
  exact ⟨span, rest, rfl, fun statement member => (within statement member).mono words⟩

theorem followedBy (opens : body.OpensWith copies word) {trailing : List Statement}
    (within : ∀ statement ∈ trailing, Within word statement.nodes) :
    (body.followedBy trailing).OpensWith copies word := by
  obtain ⟨span, rest, rfl, others⟩ := opens
  refine ⟨span, rest ++ trailing, ?_, List.forall_mem_append.mpr ⟨others, within⟩⟩
  rw [Statement.followedBy, List.append_assoc]

theorem traverse {word' : Word → Prop} (opens : body.OpensWith copies word)
    {traversal : Traversal Id} (keeps : traversal.KeepsWords)
    (carries : traversal.Carries word word') :
    (Id.run (body.traverse traversal)).OpensWith copies word' := by
  obtain ⟨span, rest, rfl, within⟩ := opens
  have same (copied : Declaration) :
      Id.run ((Statement.ofDeclaration copied).traverse traversal) = .ofDeclaration copied :=
    traverse_of_head keeps (.declaration _ _)
  refine ⟨span, rest.map fun entry => Id.run (entry.traverse traversal), ?_, ?_⟩
  · change Statement.block span (Id.run (traverseList traversal _)) = _
    rw [run_traverseList, List.map_append, List.map_map]
    simp only [Function.comp_def, same]
  · exact List.forall_mem_map.mpr fun entry member =>
      Statement.within_traverse carries (within entry member)

end OpensWith

end Statement

/-! ## Renaming -/

def Function.movableArguments (function : Function) (arguments : List String) : List String :=
  ((function.parameters.filter (·.name.isSome)).zip arguments).filterMap fun entry =>
    if entry.1.type.isMovable then some entry.2 else none

namespace Renaming

theorem movableArguments_eq {function : Function} {renamed : List RenamedParameter}
    (turns : List.Forall₂ TurnsInto function.parameters renamed) :
    function.movableArguments ((renamed.map RenamedParameter.parameter).filterMap Parameter.name) =
      renamed.filterMap RenamedParameter.copied? := by
  unfold Function.movableArguments
  generalize function.parameters = given at turns
  induction turns with
  | nil => rfl
  | @cons parameter renamed given others turns _ ih =>
    obtain ⟨sameNamed, copied⟩ := turns
    rw [List.map_cons, filterMap_cons_toList, filterMap_cons_toList, copied, ← ih]
    cases named : renamed.parameter.name with
    | none =>
      rw [named] at sameNamed
      rw [List.filter_cons_of_neg (by simp [← sameNamed])]
      simp
    | some argument =>
      rw [named] at sameNamed
      rw [List.filter_cons_of_pos (by simp [← sameNamed])]
      simp only [Option.toList_some, List.singleton_append, List.zip_cons_cons, filterMap_cons_toList]

/-- What renaming makes of a function: the arguments are copied in the order of the parameters, and all
words behind the copies are apart from the parameters. -/
structure CopiesWhole (function : Function) (registry : Registry)
    (renamed : List RenamedParameter × Statement) (after : RenameState) : Prop where
  turns : List.Forall₂ TurnsInto function.parameters renamed.1
  opens : ∃ (middle : RenameState) (copies : List Declaration),
    renamed.1.filterMap RenamedParameter.copy = copies.map .ofDeclaration ∧
      Copies .nothing ⟨{}, registry⟩ middle (RenamedParameter.listTaken renamed.1) copies ∧
        middle.registry.used ⊆ after.registry.used
  holds : Holds (RenamedParameter.listTaken renamed.1) after
  body : AllOwn (RenamedParameter.listTaken renamed.1) after.registry renamed.2.nodes

theorem whole_copies {function : Function} {registry : Registry} (own : AllOwn .nothing registry function.nodes) :
    Ensures (whole function) ⟨{}, registry⟩ (CopiesWhole function registry) := by
  obtain ⟨⟨-, names⟩, ⟨-, types⟩, inside⟩ := Function.within_nodes.mp own
  have holds : Holds .nothing (⟨{}, registry⟩ : RenameState) :=
    ⟨List.nil_subset _, fun name => .inl rfl, .nothing⟩
  refine (copies_of_parameters function.parameters holds names types).bind
    fun parameters middle here => ?_
  obtain ⟨turns, copies, same, copied⟩ := here
  have plain := (AllOwn.beside inside _ copied.unused).later copied.grows
  refine (statement_within function.body middle copied.holds plain).bind fun body after behind => ?_
  exact .pure ⟨turns, ⟨middle, copies, same, copied, behind.1.grows⟩, behind.1.holds, behind.2⟩

end Renaming

/-! ## Preparation -/

open Renaming (AllOwn Apart Copies Taken)

def Text.Lacks (arguments : List String) (spelling : String) : Prop :=
  ∀ piece ∈ pieces spelling, piece ∉ arguments

theorem Text.lacks_of_own {names : List String} {registry : Registry} {name : String}
    (own : Renaming.Own names registry name) : Lacks names name := by
  rw [Lacks, pieces_of_isWhole own.whole]
  exact List.forall_mem_singleton.mpr own.other

theorem Text.lacks_joined {arguments : List String} {first second : String}
    (whole : IsWhole first) (other : first ∉ arguments) (lacks : Lacks arguments second)
    (numbered : ∀ argument ∈ arguments, Registry.IsNumbered argument) :
    Lacks arguments (first ++ " ## " ++ second) := by
  rw [Lacks, pieces_joined whole]
  exact List.forall_mem_cons.mpr ⟨other,
    List.forall_mem_cons.mpr ⟨fun member => (numbered _ member).ne (by decide) rfl, lacks⟩⟩

/-- A word of a macro: none of its tokens is a parameter that is copied, and none but a value and a label is any
parameter. -/
def Renaming.Taken.Spares (taken : Taken) : Word → Prop
  | .value name | .label name => Text.Lacks taken.copied name
  | .other name => Text.Lacks taken.copied name ∧ name ∉ taken.parameters
  | .designated _ => True

namespace Preparation

/-- Copies open the body of a function on its way to a macro, and the parameters are in use and have numbers. -/
structure Opens (preparation : Preparation) (taken : Taken) (copies : List Declaration)
    (word : Word → Prop) : Prop where
  body : preparation.function.body.OpensWith copies word
  heads : AllOwn taken.direct preparation.registry (copies.flatMap Declaration.nodes)
  used : taken.parameters ⊆ preparation.registry.used
  numbered : ∀ name ∈ taken.parameters, Registry.IsNumbered name
  parameters : preparation.parameters ⊆ taken.parameters

variable {preparation : Preparation} {taken : Taken} {plan : MacroPlan}

theorem rename_opens {function : Function} {registry : Registry}
    (own : AllOwn .nothing registry function.nodes) (form : function.IsBraced) :
    ∃ taken middle copies, function.movableArguments (rename function registry).arguments = taken.copied ∧
        Copies .nothing ⟨{}, registry⟩ middle taken copies ∧
        (rename function registry).Opens taken copies (Apart taken (rename function registry).registry) := by
  have whole := Renaming.whole_copies own
  have stays := (form.renameLocals registry).isBlock
  unfold rename
  rw [function.renameLocals_eq registry] at stays ⊢
  unfold Ensures at whole
  generalize (Renaming.whole function).run ⟨{}, registry⟩ = result at whole stays ⊢
  obtain ⟨⟨parameters, body⟩, after⟩ := result
  obtain ⟨turns, ⟨middle, copies, same, copied, grows⟩, holds, inside⟩ := whole
  refine ⟨Renaming.RenamedParameter.listTaken parameters, middle, copies, Renaming.movableArguments_eq turns, copied, ?_, copied.own.later grows, holds.used,
    fun name member => (copied.fresh name member).isNumbered, ?_⟩
  · cases body with
    | block span entries =>
      refine ⟨span, entries, ?_, Statement.within_block.mp inside⟩
      exact congrArg (fun leading => Statement.block span (leading ++ entries)) same
    | _ => cases stays
  · change (parameters.map Renaming.RenamedParameter.parameter).filterMap Parameter.name ⊆ _
    rw [List.filterMap_map]
    exact List.Subset.refl _

theorem Opens.point (opens : preparation.Opens taken copies (Apart taken preparation.registry)) (plan : MacroPlan)
    (name : String) :
    ∃ after, after.copied = taken.copied ∧
      (preparation.point plan name).Opens after copies (Apart after (preparation.point plan name).registry) := by
  unfold Preparation.point
  split
  · let pointer := (preparation.registry.fresh "retval").1
    have issues := Registry.fresh_issues "retval" preparation.registry
    have grows : preparation.registry.used ⊆ (preparation.registry.fresh "retval").2.used := fun _ => issues.mem_used
    have unused : ∀ name ∈ (Taken.copy pointer).direct.parameters, name ∉ preparation.registry.used := issues.fresh
    have draws : (storeThrough pointer).Draws (· = .value pointer) := storeThrough_draws rfl
    have wider (given : Word) (apart : Apart taken preparation.registry given) :
        Apart (taken.append (Taken.copy pointer).direct) (preparation.registry.fresh "retval").2 given :=
      apart.map (fun _ own => (own.beside (by simp [Taken.direct])).later grows) fun _ own => (own.beside unused).later grows
    refine ⟨taken.append (Taken.copy pointer).direct, by simp [Taken.append, Taken.direct], ?_,
      (opens.heads.beside (Taken.copy pointer).direct unused).later grows, ?_, ?_, ?_⟩
    · refine (opens.body.mono wider).rewritten ?_ (Statement.rewritten_replaceReturns draws _)
      rintro given rfl
      exact ⟨(issues.used _).mpr (.inl List.mem_cons_self),
        Registry.isWhole_fresh (by simp [IsWhole, Text.separatesPieces]) _, fun member =>
          issues.fresh _ List.mem_cons_self (opens.used (taken.among (by simpa [Taken.append, Taken.direct] using member)))⟩
    · exact List.append_subset.mpr ⟨fun _ member => grows (opens.used member),
        fun name member => (issues.used name).mpr (.inl member)⟩
    · exact List.forall_mem_append.mpr ⟨opens.numbered, List.forall_mem_singleton.mpr ⟨_, _, rfl⟩⟩
    · exact List.cons_subset.mpr ⟨List.mem_append_right _ List.mem_cons_self, fun _ member =>
        List.mem_append_left _ (opens.parameters (List.mem_append_right _ member))⟩
  · exact ⟨taken, rfl, opens⟩

theorem Opens.linearize (opens : preparation.Opens taken copies (Apart taken preparation.registry)) :
    preparation.linearize.Opens taken copies (Apart taken preparation.linearize.registry) := by
  unfold Preparation.linearize
  split
  · let exit := (preparation.registry.fresh "exit").1
    have issues := Registry.fresh_issues "exit" preparation.registry
    have grows : preparation.registry.used ⊆ (preparation.registry.fresh "exit").2.used := fun _ => issues.mem_used
    have own : Renaming.Own taken.parameters (preparation.registry.fresh "exit").2 exit :=
      ⟨(issues.used _).mpr (.inl List.mem_cons_self), Registry.isWhole_fresh (by simp [IsWhole, Text.separatesPieces]) _,
        fun member => issues.fresh _ List.mem_cons_self (opens.used member)⟩
    have draws : (jumpTo exit).Draws (· = .label exit) := jumpTo_draws rfl
    have later (given : Word) (apart : Apart taken preparation.registry given) :
        Apart taken (preparation.registry.fresh "exit").2 given :=
      apart.map (fun _ own => own.later grows) fun _ own => own.later grows
    have jumping := (opens.body.mono later).rewritten (by rintro given rfl; exact own)
      (Statement.rewritten_replaceReturns draws _)
    refine ⟨jumping.followedBy (List.forall_mem_singleton.mpr ?_), opens.heads.later grows,
      fun _ member => grows (opens.used member), opens.numbered, opens.parameters⟩
    exact Node.within_cons.mpr ⟨List.forall_mem_singleton.mpr own, (Node.within_inside rfl).mpr Node.within_nil⟩
  · exact opens

theorem Opens.namespaced (opens : preparation.Opens taken copies (Apart taken preparation.registry))
    (whole : IsWhole plan.namespaceName) (other : plan.namespaceName ∉ taken.copied) :
    (preparation.namespaced plan).Opens taken copies taken.Spares := by
  refine ⟨opens.body.traverse ⟨fun _ => rfl, fun _ => rfl, fun _ => rfl, fun _ => rfl⟩
    ⟨fun given apart => ?_, fun _ => Text.lacks_of_own,
      fun _ own => ⟨Text.lacks_of_own (own.sub taken.among), own.other⟩, fun label own => ?_⟩,
    opens.heads, opens.used, opens.numbered, opens.parameters⟩
  · cases given with
    | value name => exact Text.lacks_of_own apart
    | label name => exact Text.lacks_of_own (apart.sub taken.among)
    | other name => exact ⟨Text.lacks_of_own (apart.sub taken.among), apart.other⟩
    | designated name => trivial
  · exact Text.lacks_joined whole other (Text.lacks_of_own (own.sub taken.among))
      fun argument member => opens.numbered argument (taken.among member)

end Preparation

theorem Function.arguments_prepare (plan : MacroPlan) (function : Function) (registry : Registry) :
    (function.prepare plan registry).arguments = (Preparation.rename function registry).arguments := by
  have pointed : ((Preparation.rename function registry).point plan function.name).arguments =
      (Preparation.rename function registry).arguments := by
    unfold Preparation.point
    split <;> rfl
  refine Eq.trans ?_ pointed
  unfold Function.prepare Preparation.linearize
  split <;> rfl

/-- What a function is before its calls become invocations: the copies open it, and the words behind them are apart
from the parameters, of which the pointer is one. -/
structure Function.Prepared (plan : MacroPlan) (function : Function) (registry : Registry) (first taken : Taken)
    (copies : List Declaration) : Prop where
  movable : function.movableArguments (function.prepare plan registry).arguments = first.copied
  copied : ∃ middle, Copies .nothing ⟨{}, registry⟩ middle first copies
  same : taken.copied = first.copied
  opens : (function.prepare plan registry).Opens taken copies taken.Spares

theorem Function.prepared {plan : MacroPlan} {function : Function} {registry : Registry}
    (own : AllOwn .nothing registry function.nodes) (form : function.IsBraced)
    (leading : Renaming.Own [] registry plan.namespaceName) :
    ∃ first taken copies, function.Prepared plan registry first taken copies := by
  obtain ⟨first, middle, copies, movable, copied, opens⟩ := Preparation.rename_opens own form
  obtain ⟨taken, same, pointed⟩ := opens.point plan function.name
  refine ⟨first, taken, copies, ?_, ⟨middle, copied⟩, same, pointed.linearize.namespaced leading.whole ?_⟩
  · rw [Function.arguments_prepare, movable]
  · exact fun member => copied.unused _ (first.among (same ▸ member)) leading.used

/-! ## Invocations -/

/-- Arguments are copied at the head of a body, in their order, and none of them is a token of any other
name in the body. -/
structure Statement.CopiesOnce (arguments : List String) (body : Statement) : Prop where
  opens : ∃ span copies rest, body = .block span (copies.map Statement.ofDeclaration ++ rest) ∧
    List.Forall₂ (fun argument copied => ∃ place,
      copied.initializer = some (.expression place (.ofName argument))) arguments copies
  once : ∀ argument ∈ arguments,
    ((Node.allNames body.nodes).flatMap Text.pieces).count argument = 1

theorem Text.flatMap_pieces {names : List String} (whole : ∀ name ∈ names, IsWhole name) :
    names.flatMap pieces = names := by
  induction names with
  | nil => rfl
  | cons name names ih =>
    rw [List.forall_mem_cons] at whole
    rw [List.flatMap_cons, pieces_of_isWhole whole.1, ih whole.2]
    rfl

theorem Statement.allNames_declarations (copies : List Declaration) :
    Node.allNames (listNodes (copies.map .ofDeclaration)) =
      Node.allNames (copies.flatMap Declaration.nodes) := by
  induction copies with
  | nil => rfl
  | cons copied copies ih =>
    rw [List.map_cons, listNodes, List.flatMap_cons, Node.allNames_append, Node.allNames_append, ih]
    simp [ofDeclaration, nodes, Node.allNames, Node.names]

theorem Statement.OpensWith.copiesOnce {taken first : Taken} {body : Statement} {state middle : RenameState}
    (opens : body.OpensWith copies taken.Spares) (copied : Copies .nothing state middle first copies)
    (same : taken.copied = first.copied) : body.CopiesOnce first.copied := by
  obtain ⟨span, rest, rfl, within⟩ := opens
  refine ⟨⟨span, copies, rest, rfl, copied.initialized⟩, fun argument member => ?_⟩
  have whole : ∀ name ∈ Node.allNames (copies.flatMap Declaration.nodes), IsWhole name :=
    fun name stands => (copied.own.own stands).whole
  have lacks : ∀ name ∈ Node.allNames (Statement.listNodes rest), Text.Lacks first.copied name := by
    refine Node.spelled_iff.mp ((Statement.within_listNodes.mpr within).mono fun given spares => ?_)
    rw [← same]
    cases given with
    | value name | label name => exact spares
    | other name => exact spares.1
    | designated name => trivial
  have absent : argument ∉ (Node.allNames (Statement.listNodes rest)).flatMap Text.pieces := by
    intro stands
    obtain ⟨name, among, piece⟩ := List.mem_flatMap.mp stands
    exact lacks name among argument piece member
  have names : Node.allNames (Statement.block span (copies.map .ofDeclaration ++ rest)).nodes =
      Node.allNames (copies.flatMap Declaration.nodes) ++
        Node.allNames (Statement.listNodes rest) := by
    rw [← allNames_declarations, ← Node.allNames_append, ← listNodes_append]
    rfl
  rw [names, List.flatMap_append, List.count_append, Text.flatMap_pieces whole,
    copied.once argument member, List.count_eq_zero.mpr absent]

section

variable {plan : MacroPlan} {function : Function} {registry : Registry} {first taken : Taken}
  (prepared : function.Prepared plan registry first taken copies) (leading : Renaming.Own [] registry plan.namespaceName)
  (macros : ∀ name macroName, plan.macros.find? name = some macroName → Renaming.Own [] registry macroName)
  {work : Work} (runs : (Pass.invokeMacros plan.inside).run ⟨(function.prepare plan registry).function,
    (function.prepare plan registry).registry⟩ = .ok () work)

include prepared leading macros runs

theorem Pass.invokeMacros_opens : work.function.body.OpensWith copies taken.Spares := by
  obtain ⟨-, ⟨middle, copied⟩, same, opens⟩ := prepared
  have apart {name : String} (own : Renaming.Own [] registry name) : name ∉ taken.copied :=
    fun member => copied.unused _ (first.among (same ▸ member)) own.used
  have lacks {name : String} (whole : IsWhole name) (other : name ∉ taken.copied) :
      Text.Lacks taken.copied name := by
    rw [Text.Lacks, Text.pieces_of_isWhole whole]
    exact List.forall_mem_singleton.mpr other
  have makes : Invoking.Makes plan.inside (function.prepare plan registry).registry.used taken.Spares := by
    refine ⟨fun name macroName found => lacks (macros name macroName found).whole (apart (macros name macroName found)),
      fun number unused => ?_⟩
    refine Text.lacks_joined leading.whole (apart leading) (lacks ?_ ?_)
      fun argument member => opens.numbered argument (taken.among member)
    · exact Registry.isWhole_numbered (by simp [IsWhole, Text.separatesPieces]) number
    · exact fun member => unused (opens.used (taken.among member))
  exact opens.body.rewritten (fun _ => id) (Pass.invokeMacros_rewritten makes runs)

end

end InlineMacro
