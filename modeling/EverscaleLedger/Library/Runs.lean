import Mathlib

/-! Runs of a machine with partial steps: `none` is a step without a meaning. -/
namespace EverscaleLedger.Library

variable {σ ε ω : Type _}

/-- The states that a list of events leads to, the last event being last. -/
inductive Run (step : σ → ε → Option (σ × ω)) (start : σ) : List ε → σ → Prop where
  | nil : Run step start [] start
  | snoc {events : List ε} {state next : σ} {event : ε} {output : ω}
      (earlier : Run step start events state) (last : step state event = some (next, output)) :
      Run step start (events ++ [event]) next

/-- A run all of whose steps satisfy a condition on the event and on the state
before it. -/
inductive RunWithin (step : σ → ε → Option (σ × ω)) (allowed : σ → ε → Prop) (start : σ) :
    List ε → σ → Prop where
  | nil : RunWithin step allowed start [] start
  | snoc {events : List ε} {state next : σ} {event : ε} {output : ω}
      (earlier : RunWithin step allowed start events state) (admitted : allowed state event)
      (last : step state event = some (next, output)) :
      RunWithin step allowed start (events ++ [event]) next

/-- Run the steps of a list of events, as far as they have a meaning. -/
def steps (step : σ → ε → Option (σ × ω)) : σ → List ε → Option σ
  | state, [] => some state
  | state, event :: events => do
      let (next, _) ← step state event
      steps step next events

theorem Run.of_steps {step : σ → ε → Option (σ × ω)} {start state result : σ}
    {earlier : List ε} (events : List ε) (h : Run step start earlier state)
    (hsteps : steps step state events = some result) :
    Run step start (earlier ++ events) result := by
  induction events generalizing earlier state with
  | nil =>
    rw [steps, Option.some.injEq] at hsteps
    rw [List.append_nil]
    exact hsteps ▸ h
  | cons event events ih =>
    simp only [steps, Option.bind_eq_bind, Option.bind_eq_some_iff] at hsteps
    obtain ⟨⟨next, output⟩, hstep, hrest⟩ := hsteps
    have hall := ih (h.snoc hstep) hrest
    rwa [List.append_assoc, List.singleton_append] at hall

/-- A run ends in one state only. -/
theorem Run.unique {step : σ → ε → Option (σ × ω)} {start first second : σ} {events : List ε}
    (h : Run step start events first) (h' : Run step start events second) : first = second := by
  induction h generalizing second with
  | nil =>
    generalize hevents : [] = events at h'
    cases h' with
    | nil => rfl
    | snoc earlier last => exact absurd hevents.symm (List.append_ne_nil_of_right_ne_nil _ (by simp))
  | @snoc events state next event output earlier last ih =>
    generalize hevents : events ++ [event] = all at h'
    cases h' with
    | nil => exact absurd hevents (List.append_ne_nil_of_right_ne_nil _ (by simp))
    | snoc earlier' last' =>
      obtain ⟨rfl, hevent⟩ := List.append_inj' hevents rfl
      obtain rfl := List.singleton_inj.mp hevent
      obtain rfl := ih earlier'
      exact congrArg Prod.fst (Option.some.inj (last.symm.trans last'))

/-- There is a result, and it is of the given kind. -/
def Yields (x : Option σ) (property : σ → Prop) : Prop :=
  ∃ result, x = some result ∧ property result

instance (x : Option σ) (property : σ → Prop) [DecidablePred property] :
    Decidable (Yields x property) :=
  match x with
  | some result => decidable_of_iff (property result)
      ⟨fun h => ⟨result, rfl, h⟩, fun ⟨_, heq, h⟩ => Option.some.inj heq ▸ h⟩
  | none => .isFalse fun ⟨result, heq, _⟩ => Option.some_ne_none result heq.symm

/-- A run can be computed. -/
theorem exists_run {step : σ → ε → Option (σ × ω)} {start : σ} {events : List ε}
    {property : σ → Prop} (h : Yields (steps step start events) property) :
    ∃ state, Run step start events state ∧ property state := by
  obtain ⟨state, hsteps, hproperty⟩ := h
  exact ⟨state, Run.of_steps events .nil hsteps, hproperty⟩

namespace RunWithin

variable {step : σ → ε → Option (σ × ω)} {allowed : σ → ε → Prop} {start state : σ}
  {events : List ε}

theorem run (h : RunWithin step allowed start events state) : Run step start events state := by
  induction h with
  | nil => exact .nil
  | snoc _ _ last ih => exact .snoc ih last

/-- A run whose events are admitted in every state. -/
theorem of_run (h : Run step start events state)
    (hall : ∀ event ∈ events, ∀ state, allowed state event) :
    RunWithin step allowed start events state := by
  induction h with
  | nil => exact .nil
  | snoc _ last ih =>
    refine .snoc (ih fun event hevent => hall event ?_) (hall _ ?_ _) last
    · exact List.mem_append_left _ hevent
    · exact List.mem_append_right _ List.mem_cons_self

/-- What holds of the start and of no events, and is preserved by every admitted
step, holds of every run. -/
theorem history (property : List ε → σ → Prop) (hstart : property [] start)
    (hstep : ∀ events state event next output, property events state → allowed state event →
      step state event = some (next, output) → property (events ++ [event]) next)
    (h : RunWithin step allowed start events state) : property events state := by
  induction h with
  | nil => exact hstart
  | snoc _ admitted last ih => exact hstep _ _ _ _ _ ih admitted last

theorem invariant (property : σ → Prop) (hstart : property start)
    (hstep : ∀ state event next output, property state → allowed state event →
      step state event = some (next, output) → property next)
    (h : RunWithin step allowed start events state) : property state :=
  h.history (fun _ => property) hstart fun _ => hstep

theorem weaken {weaker : σ → ε → Prop}
    (hweaker : ∀ state event, allowed state event → weaker state event)
    (h : RunWithin step allowed start events state) :
    RunWithin step weaker start events state := by
  induction h with
  | nil => exact .nil
  | snoc _ admitted last ih => exact .snoc ih (hweaker _ _ admitted) last

end RunWithin

/-- A machine with a history variable, which no step reads. -/
def withHistory {η : Type _} (step : σ → ε → Option (σ × ω)) (record : σ → η → ε → η) :
    σ × η → ε → Option ((σ × η) × ω) := fun state event =>
  (step state.1 event).map fun result => ((result.1, record state.1 state.2 event), result.2)

theorem withHistory_eq_some {η : Type _} {step : σ → ε → Option (σ × ω)} {record : σ → η → ε → η}
    {state next : σ × η} {event : ε} {output : ω} :
    withHistory step record state event = some (next, output) ↔
      step state.1 event = some (next.1, output) ∧ next.2 = record state.1 state.2 event := by
  unfold withHistory
  rw [Option.map_eq_some_iff]
  constructor
  · rintro ⟨⟨result, _⟩, hstep, heq⟩
    obtain ⟨rfl, rfl⟩ := Prod.mk.inj heq
    exact ⟨hstep, rfl⟩
  · rintro ⟨hstep, hrecord⟩
    exact ⟨(next.1, output), hstep, by rw [← hrecord]⟩

/-- Every run has its history. -/
theorem Run.withHistory {η : Type _} {step : σ → ε → Option (σ × ω)} (record : σ → η → ε → η)
    (first : η) {start state : σ} {events : List ε} (h : Run step start events state) :
    ∃ history, Run (withHistory step record) (start, first) events (state, history) := by
  induction h with
  | nil => exact ⟨first, .nil⟩
  | snoc _ last ih =>
    obtain ⟨history, hrun⟩ := ih
    exact ⟨_, hrun.snoc (withHistory_eq_some.mpr ⟨last, rfl⟩)⟩

end EverscaleLedger.Library
