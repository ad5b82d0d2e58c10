import Mathlib
import ExprCode.Typing

/-! # Runs of stateful operations

What is known about the parts of a sequence of operations whose result is known; `Ensures`: an
operation ends as asked for, or fails by an error that is allowed; and `InStep`: two operations end
alike from states that stand in a relation. -/

namespace ExprCode

variable {ε σ α β : Type}

/-- The parts of a sequence that succeeds. -/
theorem bind_eq_ok {first : EStateM ε σ α} {next : α → EStateM ε σ β} {before after : σ}
    {result : β}
    (h : (first >>= next) before = .ok result after) :
    ∃ value middle, first before = .ok value middle ∧ next value middle = .ok result after := by
  change EStateM.bind first next before = _ at h
  unfold EStateM.bind at h
  cases run : first before with
  | ok value middle =>
    rw [run] at h
    exact ⟨value, middle, rfl, h⟩
  | error error middle =>
    rw [run] at h
    cases h

/-- A sequence fails at its first part or behind it. -/
theorem bind_eq_error {first : EStateM ε σ α} {next : α → EStateM ε σ β} {before after : σ}
    {error : ε} (h : (first >>= next) before = .error error after) :
    first before = .error error after ∨
      ∃ value middle, first before = .ok value middle ∧ next value middle = .error error after := by
  change EStateM.bind first next before = _ at h
  unfold EStateM.bind at h
  cases run : first before with
  | ok value middle =>
    rw [run] at h
    exact .inr ⟨value, middle, rfl, h⟩
  | error error middle =>
    rw [run] at h
    cases h
    exact .inl rfl

/-- A sequence whose first part succeeds goes on with the rest. -/
theorem bind_of_ok {first : EStateM ε σ α} {next : α → EStateM ε σ β} {before middle : σ}
    {value : α}
    (h : first before = .ok value middle) : (first >>= next) before = next value middle := by
  change EStateM.bind first next before = _
  unfold EStateM.bind
  rw [h]

/-- A sequence whose first part fails does nothing else. -/
theorem bind_of_error {first : EStateM ε σ α} {next : α → EStateM ε σ β} {before after : σ}
    {error : ε} (h : first before = .error error after) :
    (first >>= next) before = .error error after := by
  change EStateM.bind first next before = _
  unfold EStateM.bind
  rw [h]

/-! ## Outcomes -/

/-- From a state, an operation ends with a value and a state as asked for, or fails by an error that
is allowed. -/
def Ensures (allowed : ε → Prop) (operation : EStateM ε σ α) (before : σ)
    (post : α → σ → Prop) : Prop :=
  match operation before with
  | .ok value after => post value after
  | .error error _ => allowed error

namespace Ensures

variable {allowed : ε → Prop} {operation : EStateM ε σ α} {before : σ} {post : α → σ → Prop}

/-- An operation that succeeds ensures what holds then. -/
theorem of_ok {value : α} {after : σ} (h : operation before = .ok value after)
    (holds : post value after) : Ensures allowed operation before post := by
  rw [Ensures, h]
  exact holds

/-- An operation that fails with a permitted error ensures anything. -/
theorem of_error {error : ε} {after : σ} (h : operation before = .error error after)
    (permitted : allowed error) : Ensures allowed operation before post := by
  rw [Ensures, h]
  exact permitted

/-- A plain value ensures what holds of it. -/
theorem pure {value : α} (holds : post value before) :
    Ensures allowed (Pure.pure value : EStateM ε σ α) before post :=
  of_ok rfl holds

/-- A permitted error ensures anything. -/
theorem throw {error : ε} (permitted : allowed error) :
    Ensures allowed (MonadExcept.throw error : EStateM ε σ α) before post :=
  of_error rfl permitted

/-- What is ensured may be weakened. -/
theorem mono {otherPost : α → σ → Prop} (h : Ensures allowed operation before post)
    (weaker : ∀ value after, post value after → otherPost value after) :
    Ensures allowed operation before otherPost := by
  unfold Ensures at h ⊢
  cases run : operation before with
  | ok value after =>
    rw [run] at h
    exact weaker value after h
  | error error after =>
    rw [run] at h
    exact h

/-- A sequence whose first part is known. -/
theorem bind_ok {next : α → EStateM ε σ β} {finalPost : β → σ → Prop} {value : α} {middle : σ}
    (run : operation before = .ok value middle)
    (rest : Ensures allowed (next value) middle finalPost) :
    Ensures allowed (operation >>= next) before finalPost := by
  unfold Ensures at rest ⊢
  rwa [bind_of_ok run]

/-- A sequence that starts by reading the state. -/
theorem get_bind {next : σ → EStateM ε σ α} (rest : Ensures allowed (next before) before post) :
    Ensures allowed (get >>= next) before post :=
  bind_ok rfl rest

/-- A sequence ends as asked for if its second part does from wherever the first ends. -/
theorem bind {next : α → EStateM ε σ β} {finalPost : β → σ → Prop}
    (first : Ensures allowed operation before post)
    (second : ∀ value middle, post value middle → Ensures allowed (next value) middle finalPost) :
    Ensures allowed (operation >>= next) before finalPost := by
  unfold Ensures at first
  cases run : operation before with
  | ok value middle =>
    rw [run] at first
    exact bind_ok run (second value middle first)
  | error error middle =>
    rw [run] at first
    exact of_error (bind_of_error run) first

/-- Where every error is allowed, only success has to be looked at. -/
theorem of_forall_ok
    (h : ∀ value after, operation before = .ok value after → post value after) :
    Ensures (fun _ => True) operation before post := by
  cases run : operation before with
  | ok value after => exact of_ok run (h value after run)
  | error error after => exact of_error run trivial

/-- How an operation ends that ends as asked for. -/
theorem post_of_ok {value : α} {after : σ} (h : Ensures allowed operation before post)
    (run : operation before = .ok value after) : post value after := by
  rwa [Ensures, run] at h

/-- How an operation fails that fails as allowed. -/
theorem allowed_of_error {error : ε} {after : σ} (h : Ensures allowed operation before post)
    (run : operation before = .error error after) : allowed error := by
  rwa [Ensures, run] at h

/-- Where no error is allowed, an operation succeeds. -/
theorem exists_ok (h : Ensures (fun _ => False) operation before post) :
    ∃ value after, operation before = .ok value after := by
  cases run : operation before with
  | ok value after => exact ⟨value, after, rfl⟩
  | error error after => exact (h.allowed_of_error run).elim

end Ensures

/-- Whenever an operation succeeds, it ends as asked for. -/
abbrev EndsAs (operation : EStateM ε σ α) (before : σ) (post : α → σ → Prop) : Prop :=
  Ensures (fun _ => True) operation before post

/-! ## Runs in step -/

section InStep

variable {ε σ τ α β γ δ : Type}

/-- Two runs end alike: both succeed, or both fail with one error, in states that stand in a
relation. -/
inductive EndsAlike (states : σ → τ → Prop) (results : α → β → Prop) :
    EStateM.Result ε σ α → EStateM.Result ε τ β → Prop
  | ok {value : α} {other : β} {after : σ} {otherAfter : τ} (result : results value other)
      (state : states after otherAfter) :
      EndsAlike states results (.ok value after) (.ok other otherAfter)
  | error {error : ε} {after : σ} {otherAfter : τ} (state : states after otherAfter) :
      EndsAlike states results (.error error after) (.error error otherAfter)

/-- Two operations go in step: from related states they end alike. -/
def InStep (states : σ → τ → Prop) (results : α → β → Prop) (first : EStateM ε σ α)
    (second : EStateM ε τ β) : Prop :=
  ∀ before other, states before other → EndsAlike states results (first before) (second other)

variable {states : σ → τ → Prop} {results : α → β → Prop} {finalResults : γ → δ → Prop}
  {first : EStateM ε σ α} {second : EStateM ε τ β}

/-- Answers go in step. -/
theorem InStep.pure {value : α} {other : β} (result : results value other) :
    InStep states results (Pure.pure value : EStateM ε σ α) (Pure.pure other : EStateM ε τ β) :=
  fun _ _ related => .ok result related

/-- Failures with one error go in step. -/
theorem InStep.throw (error : ε) :
    InStep states results (MonadExcept.throw error : EStateM ε σ α)
      (MonadExcept.throw error : EStateM ε τ β) :=
  fun _ _ related => .error related

/-- Sequences end alike if the rests go in step. -/
theorem EndsAlike.bind {next : α → EStateM ε σ γ} {otherNext : β → EStateM ε τ δ} {before : σ}
    {other : τ} (parts : EndsAlike states results (first before) (second other))
    (rest : ∀ value result, results value result →
      InStep states finalResults (next value) (otherNext result)) :
    EndsAlike states finalResults ((first >>= next) before) ((second >>= otherNext) other) := by
  generalize firstRun : first before = one, secondRun : second other = two at parts
  cases parts with
  | ok result state =>
    rw [bind_of_ok firstRun, bind_of_ok secondRun]
    exact rest _ _ result _ _ state
  | error state =>
    rw [bind_of_error firstRun, bind_of_error secondRun]
    exact .error state

/-- Sequences go in step if their parts do. -/
theorem InStep.bind {next : α → EStateM ε σ γ} {otherNext : β → EStateM ε τ δ}
    (parts : InStep states results first second)
    (rest : ∀ value result, results value result →
      InStep states finalResults (next value) (otherNext result)) :
    InStep states finalResults (first >>= next) (second >>= otherNext) :=
  fun before other related => (parts before other related).bind rest

/-- Sequences whose first parts have the same results. -/
theorem InStep.next {second : EStateM ε τ α} {next : α → EStateM ε σ γ}
    {otherNext : α → EStateM ε τ δ} (parts : InStep states Eq first second)
    (rest : ∀ value, InStep states finalResults (next value) (otherNext value)) :
    InStep states finalResults (first >>= next) (second >>= otherNext) :=
  parts.bind fun value _ same => same ▸ rest value

end InStep

end ExprCode
