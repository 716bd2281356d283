import Mathlib

/-! Computations that change a state in place. Unlike with `Except` alone, the state is
there after an error as well, with all that was changed up to it. -/
namespace EverscaleLedger.Library.InPlace

variable {ε σ α β γ δ : Type _}

/-- A checked computation, which leaves the state alone. -/
def lift (x : Except ε α) : EStateM ε σ α := fun state =>
  match x with
  | .ok value => .ok value state
  | .error e => .error e state

/-- The state in which a run ends. -/
def final : EStateM.Result ε σ α → σ
  | .ok _ state => state
  | .error _ state => state

theorem lift_ok (value : α) (state : σ) :
    lift (.ok value : Except ε α) state = .ok value state := rfl

theorem bind_apply (x : EStateM ε σ α) (f : α → EStateM ε σ β) (state : σ) :
    (x >>= f) state = match x state with
      | .ok value next => f value next
      | .error e next => .error e next := rfl

theorem bind_ok {x : EStateM ε σ α} {f : α → EStateM ε σ β} {state next : σ} {value : α}
    (h : x state = .ok value next) : (x >>= f) state = f value next := by
  rw [bind_apply, h]

theorem get_bind (f : σ → EStateM ε σ β) (state : σ) : (get >>= f) state = f state state := rfl

/-! What the state tells of a run. -/

/-- The run does not lower a measure of the state, however it ends. -/
def Raises [Preorder γ] (measure : σ → γ) (x : EStateM ε σ α) : Prop :=
  ∀ state, measure state ≤ measure (final (x state))

namespace Raises

variable [Preorder γ] {measure : σ → γ}

theorem lift (x : Except ε α) : Raises measure (InPlace.lift x : EStateM ε σ α) := by
  intro state
  cases x <;> exact le_refl _

theorem pure (value : α) : Raises measure (Pure.pure value : EStateM ε σ α) := fun _ => le_refl _

theorem bind {x : EStateM ε σ α} {f : α → EStateM ε σ β} (hx : Raises measure x)
    (hf : ∀ value, Raises measure (f value)) : Raises measure (x >>= f) := by
  intro state
  have hstate := hx state
  rw [bind_apply]
  cases hrun : x state with
  | ok value next =>
    rw [hrun] at hstate
    exact le_trans hstate (hf value next)
  | error e next =>
    rw [hrun] at hstate
    exact hstate

theorem get_bind {f : σ → EStateM ε σ β} (hf : ∀ state, Raises measure (f state)) :
    Raises measure (get >>= f) := fun state => hf state state

end Raises

/-- The run ends as a computation without a state does: with a result and a state that
are related to its result, or with its error. -/
def Follows (related : β → α → σ → Prop) (y : Except ε β) : EStateM.Result ε σ α → Prop
  | .ok value state => ∃ expected, y = .ok expected ∧ related expected value state
  | .error e _ => y = .error e

namespace Follows

variable {related : β → α → σ → Prop} {y : Except ε β} {x : EStateM.Result ε σ α}

theorem of_ok (h : Follows related y x) {expected : β} (hy : y = .ok expected) :
    ∃ value state, x = .ok value state ∧ related expected value state := by
  subst hy
  cases x with
  | ok value state =>
    obtain ⟨_, heq, hrelated⟩ := h
    exact ⟨value, state, rfl, Except.ok.inj heq ▸ hrelated⟩
  | error e state => cases h

theorem bind {related' : δ → γ → σ → Prop} {run : EStateM ε σ α} {state : σ}
    {g : β → Except ε δ} {f : α → EStateM ε σ γ} (h : Follows related y (run state))
    (hf : ∀ expected value next, related expected value next →
      Follows related' (g expected) (f value next)) :
    Follows related' (y >>= g) ((run >>= f) state) := by
  rw [bind_apply]
  cases hrun : run state with
  | ok value next =>
    rw [hrun] at h
    obtain ⟨expected, rfl, hrelated⟩ := h
    exact hf expected value next hrelated
  | error e next =>
    rw [hrun] at h
    rw [show y = .error e from h]
    rfl

/-- A checked step that both take. -/
theorem lift_bind {related' : δ → γ → σ → Prop} {z : Except ε α} {state : σ}
    {g : α → Except ε δ} {f : α → EStateM ε σ γ}
    (hf : ∀ value, z = .ok value → Follows related' (g value) (f value state)) :
    Follows related' (z >>= g) ((lift z >>= f) state) := by
  cases z with
  | ok value => exact hf value rfl
  | error e => rfl

end Follows

end EverscaleLedger.Library.InPlace
