import EverscaleLedger.Library.Runs

/-! A machine that implements a specification, which is a machine itself: whatever the
specification does, with its outputs, the implementation does too. -/
namespace EverscaleLedger.Library

variable {σ τ ε ω : Type _}

/-- A run together with the outputs of its steps. -/
inductive Trace (step : σ → ε → Option (σ × ω)) (start : σ) : List (ε × ω) → σ → Prop where
  | nil : Trace step start [] start
  | snoc {trace : List (ε × ω)} {state next : σ} {event : ε} {output : ω}
      (earlier : Trace step start trace state) (last : step state event = some (next, output)) :
      Trace step start (trace ++ [(event, output)]) next

theorem Trace.run {step : σ → ε → Option (σ × ω)} {start state : σ} {trace : List (ε × ω)}
    (h : Trace step start trace state) : Run step start (trace.map Prod.fst) state := by
  induction h with
  | nil => exact .nil
  | snoc _ last ih =>
    rw [List.map_append]
    exact ih.snoc last

theorem Trace.cons {step : σ → ε → Option (σ × ω)} {start next state : σ} {event : ε} {output : ω}
    {trace : List (ε × ω)} (first : step start event = some (next, output))
    (h : Trace step next trace state) : Trace step start ((event, output) :: trace) state := by
  induction h with
  | nil => exact Trace.snoc .nil first
  | snoc _ last ih => exact ih.snoc last

/-- Every run has its trace. -/
theorem Run.trace {step : σ → ε → Option (σ × ω)} {start state : σ} {events : List ε}
    (h : Run step start events state) :
    ∃ trace, Trace step start trace state ∧ trace.map Prod.fst = events := by
  induction h with
  | nil => exact ⟨[], .nil, rfl⟩
  | snoc _ last ih =>
    obtain ⟨trace, htrace, rfl⟩ := ih
    exact ⟨_, htrace.snoc last, List.map_append⟩

/-- A step of a trace, and the trace before it. -/
theorem Trace.split {step : σ → ε → Option (σ × ω)} {start state : σ} {trace : List (ε × ω)}
    (h : Trace step start trace state) {earlier later : List (ε × ω)} {event : ε} {output : ω}
    (htrace : trace = earlier ++ (event, output) :: later) :
    ∃ before after, Trace step start earlier before ∧
      step before event = some (after, output) := by
  induction h generalizing later with
  | nil => exact absurd htrace.symm (List.append_ne_nil_of_right_ne_nil _ (List.cons_ne_nil _ _))
  | @snoc trace before next last lastOutput hearlier hlast ih =>
    cases later using List.reverseRecOn with
    | nil =>
      obtain ⟨rfl, hsame⟩ := List.append_inj' htrace rfl
      obtain ⟨rfl, rfl⟩ := Prod.mk.inj (List.singleton_inj.mp hsame)
      exact ⟨before, next, hearlier, hlast⟩
    | append_singleton later _ =>
      rw [← List.cons_append, ← List.append_assoc] at htrace
      exact ih (List.append_inj' htrace rfl).1

/-- Events determine what comes out, and where they lead to. -/
theorem Trace.unique {step : σ → ε → Option (σ × ω)} {start first second : σ}
    {trace trace' : List (ε × ω)} (h : Trace step start trace first)
    (h' : Trace step start trace' second) (hevents : trace.map Prod.fst = trace'.map Prod.fst) :
    trace = trace' ∧ first = second := by
  induction h generalizing trace' second with
  | nil =>
    rw [List.map_nil] at hevents
    obtain rfl := List.map_eq_nil_iff.mp hevents.symm
    exact ⟨rfl, Trace.nil.run.unique h'.run⟩
  | @snoc trace before next last lastOutput hearlier hlast ih =>
    cases h' with
    | nil => simp at hevents
    | snoc hearlier' hlast' =>
      rw [List.map_append, List.map_append] at hevents
      obtain ⟨hbefore, hsame⟩ := List.append_inj' hevents rfl
      obtain ⟨rfl, rfl⟩ := ih hearlier' hbefore
      obtain rfl := List.singleton_inj.mp hsame
      obtain ⟨rfl, rfl⟩ := Prod.mk.inj (Option.some.inj (hlast.symm.trans hlast'))
      exact ⟨rfl, rfl⟩

/-- Every event of the list fits the state that the events before it lead to. -/
def FitsAlong (step : σ → ε → Option (σ × ω)) (fit : σ → ε → Prop) (start : σ)
    (events : List ε) : Prop :=
  ∀ earlier event later state, events = earlier ++ event :: later →
    Run step start earlier state → fit state event

section

variable {step : σ → ε → Option (σ × ω)} {fit : σ → ε → Prop} {start : σ}

theorem FitsAlong.of_append {events later : List ε}
    (h : FitsAlong step fit start (events ++ later)) : FitsAlong step fit start events := by
  intro earlier event rest state hevents
  exact h earlier event (rest ++ later) state (by rw [hevents, List.append_assoc, List.cons_append])

/-- When every step of the specification is a step of the implementation from related
states, every trace of it is a trace of the implementation. -/
theorem Trace.implemented {spec : τ → ε → Option (τ × ω)} {related : σ → τ → Prop}
    (hstep : ∀ state abstract event next output, related state abstract → fit state event →
      spec abstract event = some (next, output) →
        ∃ state', step state event = some (state', output) ∧ related state' next)
    {first abstract : τ} {trace : List (ε × ω)} (hstart : related start first)
    (h : Trace spec first trace abstract)
    (hfit : FitsAlong step fit start (trace.map Prod.fst)) :
    ∃ state, Trace step start trace state ∧ related state abstract := by
  induction h with
  | nil => exact ⟨start, .nil, hstart⟩
  | @snoc trace between next event output earlier last ih =>
    rw [List.map_append] at hfit
    obtain ⟨state, hrun, hrelated⟩ := ih hfit.of_append
    have hnow : fit state event := hfit _ event [] state rfl hrun.run
    obtain ⟨state', hlast, hnext⟩ := hstep _ _ _ _ _ hrelated hnow last
    exact ⟨state', hrun.snoc hlast, hnext⟩

end

end EverscaleLedger.Library
