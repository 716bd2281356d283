import Mathlib

/-! Checked steps over `Except`. A computation that validates its input is a
chain of binds; the lemmas below open such a chain one step at a time, so that
a successful run hands over every intermediate value. -/
namespace EverscaleLedger.Library

variable {ε α β : Type _}

/-- Before the instance for finite types, which would go through all bytes instead of
those of the list. -/
instance (priority := 2000) decidableForallMem (values : List α) (property : α → Prop)
    [DecidablePred property] : Decidable (∀ value, value ∈ values → property value) :=
  List.decidableBAll property values

/-- Continue only if the condition holds. -/
def require (error : ε) (condition : Prop) [Decidable condition] : Except ε Unit :=
  if condition then .ok () else .error error

/-- Bounds-checked read. -/
def readAt (error : ε) (values : List α) (index : Nat) : Except ε α :=
  match values[index]? with
  | some value => .ok value
  | none => .error error

/-- Bounds-checked read of the first `count` entries. -/
def readMany (error : ε) (values : List α) (count : Nat) : Except ε (List α) :=
  if count ≤ values.length then .ok (values.take count) else .error error

/-- Bounds-checked write of one entry. -/
def writeAt (error : ε) (values : List α) (index : Nat) (value : α) : Except ε (List α) :=
  if index < values.length then .ok (values.set index value) else .error error

/-- Bounds-checked write of a block of entries. -/
def writeMany (error : ε) (values : List α) (start : Nat) (block : List α) :
    Except ε (List α) :=
  if start + block.length ≤ values.length then
    .ok (values.take start ++ block ++ values.drop (start + block.length))
  else .error error

theorem bind_eq_ok {x : Except ε α} {f : α → Except ε β} {result : β} :
    (x >>= f) = .ok result ↔ ∃ value, x = .ok value ∧ f value = .ok result := by
  cases x with
  | error e => simp [bind, Except.bind]
  | ok value => simp [bind, Except.bind]

theorem pure_eq_ok {value result : α} :
    (pure value : Except ε α) = .ok result ↔ value = result := by
  simp [pure, Except.pure]

theorem ok_bind (value : α) (f : α → Except ε β) : (Except.ok value >>= f) = f value := rfl

theorem require_eq_ok {error : ε} {condition : Prop} [Decidable condition] {result : Unit} :
    require error condition = .ok result ↔ condition := by
  unfold require
  split <;> simp_all

theorem require_of_true {error : ε} {condition : Prop} [Decidable condition] (h : condition) :
    require error condition = .ok () := if_pos h

theorem readAt_eq_ok {error : ε} {values : List α} {index : Nat} {result : α} :
    readAt error values index = .ok result ↔ values[index]? = some result := by
  unfold readAt
  split <;> simp_all

theorem drop_eq_cons {values rest : List α} {index : Nat} {value : α}
    (h : values.drop index = value :: rest) :
    values[index]? = some value ∧ values.drop (index + 1) = rest := by
  rw [← List.head?_drop, ← List.drop_drop, h]
  exact ⟨rfl, rfl⟩

theorem readMany_eq_ok {error : ε} {values result : List α} {count : Nat} :
    readMany error values count = .ok result ↔
      count ≤ values.length ∧ values.take count = result := by
  unfold readMany
  split <;> simp [*]

theorem writeAt_eq_ok {error : ε} {values result : List α} {index : Nat} {value : α} :
    writeAt error values index value = .ok result ↔
      index < values.length ∧ values.set index value = result := by
  unfold writeAt
  split <;> simp [*]

theorem writeMany_eq_ok {error : ε} {values block result : List α} {start : Nat} :
    writeMany error values start block = .ok result ↔
      start + block.length ≤ values.length ∧
        values.take start ++ block ++ values.drop (start + block.length) = result := by
  unfold writeMany
  split <;> simp [*]

/-- The error of a check is the one it names. -/
theorem error_of_ite {error other : ε} {condition : Prop} [Decidable condition] {value : α}
    (h : (if condition then .ok value else .error error : Except ε α) = .error other) :
    other = error := by
  split at h
  next => cases h
  next => exact (Except.error.inj h).symm

/-- The computation ends with a result of the given kind. -/
def Succeeds (x : Except ε α) (property : α → Prop) : Prop :=
  match x with
  | .ok value => property value
  | .error _ => False

instance (x : Except ε α) (property : α → Prop) [DecidablePred property] :
    Decidable (Succeeds x property) :=
  match x with
  | .ok value => inferInstanceAs (Decidable (property value))
  | .error _ => inferInstanceAs (Decidable False)

theorem Succeeds.exists {x : Except ε α} {property : α → Prop} (h : Succeeds x property) :
    ∃ value, x = .ok value ∧ property value := by
  cases x with
  | error e => exact h.elim
  | ok value => exact ⟨value, rfl, h⟩

/-- What every step of a fallible loop preserves, the loop preserves. -/
theorem foldlM_invariant (invariant : β → Prop) (step : β → α → Except ε β)
    (hstep : ∀ state item next, invariant state → step state item = .ok next → invariant next)
    (items : List α) (start result : β) (hstart : invariant start)
    (h : items.foldlM step start = .ok result) : invariant result := by
  induction items generalizing start with
  | nil =>
    rw [List.foldlM_nil, pure_eq_ok] at h
    exact h ▸ hstart
  | cons item rest ih =>
    rw [List.foldlM_cons, bind_eq_ok] at h
    obtain ⟨next, hnext, hrest⟩ := h
    exact ih next (hstep start item next hstart hnext) hrest

/-- A loop over indices whose states are known. -/
theorem foldlM_range_eq_ok {step : β → Nat → Except ε β} {state : Nat → β} {count : Nat}
    (h : ∀ j < count, step (state j) j = .ok (state (j + 1))) :
    (List.range count).foldlM step (state 0) = .ok (state count) := by
  induction count with
  | zero => rfl
  | succ count ih =>
    rw [List.range_succ, List.foldlM_append, ih fun j hj => h j (Nat.lt_succ_of_lt hj), ok_bind,
      List.foldlM_cons, h count (Nat.lt_succ_self count), ok_bind]
    rfl

/-- The computation ends with a result of this kind, or with an error other than
this one. -/
def Confined (error : ε) (property : α → Prop) (x : Except ε α) : Prop :=
  x ≠ .error error ∧ ∀ value, x = .ok value → property value

namespace Confined

variable {error other : ε} {property : α → Prop} {property' : β → Prop} {x : Except ε α} {value : α}

theorem of_ok (h : x = .ok value) (hproperty : property value) : Confined error property x := by
  refine ⟨fun heq => ?_, fun result hresult => ?_⟩
  · rw [h] at heq
    cases heq
  · rw [h] at hresult
    exact Except.ok.inj hresult ▸ hproperty

theorem pure (h : property value) : Confined error property (Pure.pure value : Except ε α) :=
  of_ok rfl h

theorem of_error (h : other ≠ error) : Confined error property (.error other : Except ε α) :=
  ⟨fun heq => h (Except.error.inj heq), nofun⟩

theorem self (h : x ≠ .error error) : Confined error (fun value => x = .ok value) x :=
  ⟨h, fun _ hvalue => hvalue⟩

theorem mono {weaker : α → Prop} (h : Confined error property x)
    (himp : ∀ value, property value → weaker value) : Confined error weaker x :=
  ⟨h.1, fun value hvalue => himp value (h.2 value hvalue)⟩

theorem bind {f : α → Except ε β} (hx : Confined error property x)
    (hf : ∀ value, property value → Confined error property' (f value)) :
    Confined error property' (x >>= f) := by
  cases x with
  | error e => exact of_error fun heq => hx.1 (congrArg Except.error heq)
  | ok value => exact hf value (hx.2 value rfl)

theorem require {condition : Prop} [Decidable condition] (h : other ≠ error) :
    Confined error (fun _ => condition) (Library.require other condition) := by
  unfold Library.require
  split
  next hcondition => exact of_ok rfl hcondition
  next => exact of_error h

end Confined

/-- A loop keeps to what its steps preserve, from the states that it reaches. -/
theorem foldlM_confined {error : ε} (invariant : β → Prop) {step : β → α → Except ε β}
    {items : List α}
    (hstep : ∀ state, ∀ item ∈ items, invariant state → Confined error invariant (step state item))
    {start : β} (hstart : invariant start) : Confined error invariant (items.foldlM step start) := by
  induction items generalizing start with
  | nil => exact Confined.pure hstart
  | cons item rest ih =>
    rw [List.foldlM_cons]
    refine (hstep start item List.mem_cons_self hstart).bind fun next hnext => ih ?_ hnext
    exact fun state other hother => hstep state other (List.mem_cons_of_mem item hother)

/-- The computation ends with `error`, or it does what another one does. -/
def GivesUp (error : ε) (x y : Except ε α) : Prop := x = .error error ∨ x = y

namespace GivesUp

variable {error : ε} {x y : Except ε α}

theorem refl (x : Except ε α) : GivesUp error x x := Or.inr rfl

theorem bind {f g : α → Except ε β} (h : GivesUp error x y)
    (hf : ∀ value, GivesUp error (f value) (g value)) : GivesUp error (x >>= f) (y >>= g) := by
  obtain rfl | rfl := h
  · exact Or.inl rfl
  · cases x with
    | error e => exact Or.inr rfl
    | ok value => exact hf value

theorem eq_of_ok {value : α} (h : GivesUp error x y) (hx : x = .ok value) : y = .ok value := by
  obtain h | rfl := h
  · rw [hx] at h
    cases h
  · exact hx

end GivesUp

/-- The computation follows an abstract result: it ends in a state that is related
to it, or with `error` when the result is beyond a limit. -/
def Tracks (related : α → β → Prop) (error : ε) (beyond : β → Prop) (x : Except ε α)
    (abstract : β) : Prop :=
  match x with
  | .ok state => related state abstract
  | .error e => e = error ∧ beyond abstract

/-- A fallible loop follows the abstract one when each of its steps does. -/
theorem foldlM_tracks {γ : Type _} {related : β → γ → Prop} {error : ε} {beyond : γ → Prop}
    {step : β → α → Except ε β} {advance : γ → α → γ}
    (hstep : ∀ state abstract item, related state abstract →
      Tracks related error beyond (step state item) (advance abstract item))
    (hbeyond : ∀ abstract item, beyond abstract → beyond (advance abstract item))
    (items : List α) (start : β) (abstract : γ) (hstart : related start abstract) :
    Tracks related error beyond (items.foldlM step start) (items.foldl advance abstract) := by
  induction items generalizing start abstract with
  | nil => exact hstart
  | cons item rest ih =>
    rw [List.foldlM_cons, List.foldl_cons]
    have hitem := hstep start abstract item hstart
    cases hnext : step start item with
    | ok next =>
      rw [hnext] at hitem
      exact ih next (advance abstract item) hitem
    | error e =>
      rw [hnext] at hitem
      refine ⟨hitem.1, ?_⟩
      exact List.foldlRecOn rest advance hitem.2 fun state hstate other _ =>
        hbeyond state other hstate

end EverscaleLedger.Library
