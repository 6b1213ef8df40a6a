/-!
# Reasoning about stateful computations

What a computation ensures when it starts in a given state: a property of its result and of the
state behind it. The rules follow the computation from its first step on.
-/

set_option autoImplicit false

namespace InlineMacro

variable {σ α β : Type}

def Ensures (computation : StateM σ α) (state : σ) (post : α → σ → Prop) : Prop :=
  post (computation.run state).1 (computation.run state).2

namespace Ensures

variable {computation : StateM σ α} {state : σ} {post : α → σ → Prop}

theorem pure {value : α} (holds : post value state) :
    Ensures (Pure.pure value : StateM σ α) state post := holds

theorem bind {next : α → StateM σ β} {middle : α → σ → Prop} {post : β → σ → Prop}
    (first : Ensures computation state middle)
    (rest : ∀ value state, middle value state → Ensures (next value) state post) :
    Ensures (computation >>= next) state post :=
  rest _ _ first

theorem bindGet {next : σ → StateM σ β} {post : β → σ → Prop}
    (rest : Ensures (next state) state post) : Ensures (get >>= next) state post := rest

theorem bindSet {after : σ} {next : PUnit → StateM σ β} {post : β → σ → Prop}
    (rest : Ensures (next ⟨⟩) after post) : Ensures (set after >>= next) state post := rest

theorem bindModify {change : σ → σ} {next : PUnit → StateM σ β} {post : β → σ → Prop}
    (rest : Ensures (next ⟨⟩) (change state) post) : Ensures (modify change >>= next) state post := rest

theorem mono {weaker : α → σ → Prop} (holds : Ensures computation state post)
    (weakens : ∀ value state, post value state → weaker value state) : Ensures computation state weaker :=
  weakens _ _ holds

theorem and {other : α → σ → Prop} (holds : Ensures computation state post)
    (others : Ensures computation state other) :
    Ensures computation state fun value after => post value after ∧ other value after :=
  ⟨holds, others⟩

end Ensures

/-! ## Computations that can fail -/

variable {ε : Type}

def Delivers (computation : EStateM ε σ α) (holds : α → Prop) : Prop :=
  ∀ state value after, computation.run state = .ok value after → holds value

namespace Delivers

variable {computation : EStateM ε σ α} {holds : α → Prop}

theorem anything (computation : EStateM ε σ α) : Delivers computation fun _ => True :=
  fun _ _ _ _ => trivial

theorem pure {value : α} (given : holds value) : Delivers (Pure.pure value : EStateM ε σ α) holds := by
  intro state result after runs
  cases runs
  exact given

theorem bind {next : α → EStateM ε σ β} {result : β → Prop} (first : Delivers computation holds)
    (rest : ∀ value, holds value → Delivers (next value) result) :
    Delivers (computation >>= next) result := by
  intro state value after runs
  rw [EStateM.run_bind] at runs
  cases read : computation.run state with
  | ok between middle =>
    rw [read] at runs
    exact rest between (first state between middle read) middle value after runs
  | error failure middle =>
    rw [read] at runs
    cases runs

theorem after {next : α → EStateM ε σ β} {result : β → Prop}
    (rest : ∀ value, Delivers (next value) result) : Delivers (computation >>= next) result :=
  (anything computation).bind fun value _ => rest value

theorem ite {condition : Prop} [Decidable condition] {other : EStateM ε σ α}
    (first : Delivers computation holds) (second : Delivers other holds) :
    Delivers (if condition then computation else other) holds := by
  split
  · exact first
  · exact second

theorem failure (failure : ε) : Delivers (throw failure : EStateM ε σ α) holds := by
  intro state value after runs
  cases runs

end Delivers

/-- A property holds of what a computation comes to from a given state, and of the state behind it, if it
does not fail. -/
def OnSuccess (computation : EStateM ε σ α) (state : σ) (post : α → σ → Prop) : Prop :=
  ∀ value after, computation.run state = .ok value after → post value after

namespace OnSuccess

variable {computation : EStateM ε σ α} {state : σ} {post : α → σ → Prop}

theorem pure {value : α} (holds : post value state) :
    OnSuccess (Pure.pure value : EStateM ε σ α) state post := by
  intro result after runs
  cases runs
  exact holds

theorem bind {next : α → EStateM ε σ β} {middle : α → σ → Prop} {result : β → σ → Prop}
    (first : OnSuccess computation state middle)
    (rest : ∀ value between, middle value between → OnSuccess (next value) between result) :
    OnSuccess (computation >>= next) state result := by
  intro value after runs
  rw [EStateM.run_bind] at runs
  cases read : computation.run state with
  | ok found between =>
    rw [read] at runs
    exact rest found between (first found between read) value after runs
  | error failure between =>
    rw [read] at runs
    cases runs

theorem get {next : σ → EStateM ε σ β} {result : β → σ → Prop} (rest : OnSuccess (next state) state result) :
    OnSuccess (MonadState.get >>= next) state result := rest

theorem modify {change : σ → σ} {next : PUnit → EStateM ε σ β} {result : β → σ → Prop}
    (rest : OnSuccess (next ⟨⟩) (change state) result) :
    OnSuccess (modify change >>= next) state result := rest

theorem set {after : σ} {next : PUnit → EStateM ε σ β} {result : β → σ → Prop}
    (rest : OnSuccess (next ⟨⟩) after result) :
    OnSuccess (MonadStateOf.set after >>= next) state result := rest

theorem mono {weaker : α → σ → Prop} (holds : OnSuccess computation state post)
    (weakens : ∀ value after, post value after → weaker value after) : OnSuccess computation state weaker :=
  fun value after runs => weakens value after (holds value after runs)

theorem ite {condition : Prop} [Decidable condition] {other : EStateM ε σ α}
    (first : condition → OnSuccess computation state post)
    (second : ¬condition → OnSuccess other state post) :
    OnSuccess (if condition then computation else other) state post := by
  split
  · next holds => exact first holds
  · next fails => exact second fails

theorem failure (failure : ε) : OnSuccess (throw failure : EStateM ε σ α) state post := by
  intro value after runs
  cases runs

end OnSuccess

end InlineMacro
