import EverscaleLedger.Library.Memory
import EverscaleLedger.Library.Runs

/-! Two computations side by side, on data that differ in a part that neither of them
lets out: they fail together, and related steps make related runs. -/
namespace EverscaleLedger.Library

variable {ε α β γ δ : Type _}

/-- Both end with the same error, or with related results. -/
inductive Alike (related : α → β → Prop) : Except ε α → Except ε β → Prop where
  | ok {a : α} {b : β} (h : related a b) : Alike related (.ok a) (.ok b)
  | error (e : ε) : Alike related (.error e) (.error e)

namespace Alike

variable {related : α → β → Prop} {related' : γ → δ → Prop} {x : Except ε α} {y : Except ε β}

theorem refl {same : α → α → Prop} {x : Except ε α} (h : ∀ a, same a a) : Alike same x x := by
  cases x with
  | ok a => exact .ok (h a)
  | error e => exact .error e

theorem bind {f : α → Except ε γ} {g : β → Except ε δ} (h : Alike related x y)
    (hfg : ∀ a b, related a b → Alike related' (f a) (g b)) :
    Alike related' (x >>= f) (y >>= g) := by
  cases h with
  | ok hab => exact hfg _ _ hab
  | error e => exact .error e

/-- A step that is the same on both sides. -/
theorem step {f : α → Except ε γ} {g : α → Except ε δ} (x : Except ε α)
    (h : ∀ a, x = .ok a → Alike related' (f a) (g a)) : Alike related' (x >>= f) (x >>= g) := by
  cases x with
  | ok a => exact h a rfl
  | error e => exact .error e

theorem ite {condition : Prop} [Decidable condition] {x' : Except ε α} {y' : Except ε β}
    (h : Alike related x y) (h' : Alike related x' y') :
    Alike related (if condition then x else x') (if condition then y else y') := by
  split
  · exact h
  · exact h'

theorem mono {weaker : α → β → Prop} (h : Alike related x y)
    (himp : ∀ a b, related a b → weaker a b) : Alike weaker x y := by
  cases h with
  | ok hab => exact .ok (himp _ _ hab)
  | error e => exact .error e

/-- What both sides know of their own results may be added to the relation. -/
theorem with_ok (h : Alike related x y) :
    Alike (fun a b => related a b ∧ x = .ok a ∧ y = .ok b) x y := by
  cases h with
  | ok hab => exact .ok ⟨hab, rfl, rfl⟩
  | error e => exact .error e

end Alike

/-! Memories. -/

/-- The memories agree outside of a field. -/
def AgreeOff (field : Field) (memory other : Memory) : Prop :=
  ∀ address, address < field.offset ∨ field.offset + field.size ≤ address →
    other address = memory address

namespace AgreeOff

variable {field : Field} {memory other : Memory}

theorem refl (field : Field) (memory : Memory) : AgreeOff field memory memory := fun _ _ => rfl

theorem write (h : AgreeOff field memory other) (start : Nat) (bytes : List UInt8) :
    AgreeOff field (memory.write start bytes) (other.write start bytes) := by
  intro address haddress
  unfold Memory.write
  rw [h address haddress]

/-- What is written to the field itself may differ. -/
theorem write_field (h : AgreeOff field memory other) {bytes bytes' : List UInt8}
    (hbytes : bytes.length ≤ field.size) (hbytes' : bytes'.length ≤ field.size) :
    AgreeOff field (memory.write field.offset bytes) (other.write field.offset bytes') := by
  intro address haddress
  unfold Memory.write
  rw [if_neg (by omega), if_neg (by omega), h address haddress]

theorem read (h : AgreeOff field memory other) (place : Field)
    (hapart : place.Apart field.offset field.size) : other.read place = memory.read place := by
  unfold Memory.read
  apply List.map_congr_left
  intro i hi
  apply h
  have hlt := List.mem_range.mp hi
  unfold Field.Apart at hapart
  omega

theorem readUint (h : AgreeOff field memory other) (place : Field)
    (hapart : place.Apart field.offset field.size) :
    other.readUint place = memory.readUint place :=
  congrArg littleEndianValue (h.read place hapart)

end AgreeOff

/-! Machines. -/

theorem map_eq_of_rel {related : α → β → Prop} {f : α → γ} {g : β → γ} {x : Option α} {y : Option β}
    (h : Option.Rel related x y) (hfg : ∀ a b, related a b → f a = g b) : x.map f = y.map g := by
  cases h with
  | some hab => exact congrArg some (hfg _ _ hab)
  | none => rfl

theorem forall₂_of_snoc {related : α → β → Prop} {as : List α} {a : α} {bs : List β}
    (h : List.Forall₂ related (as ++ [a]) bs) :
    ∃ (bs' : List β) (b : β), bs = bs' ++ [b] ∧ List.Forall₂ related as bs' ∧ related a b := by
  rw [← List.forall₂_reverse_iff, List.reverse_append] at h
  cases hbs : bs.reverse with
  | nil =>
    rw [hbs] at h
    cases h
  | cons b rest =>
    rw [hbs] at h
    cases h with
    | cons hab hrest =>
      refine ⟨rest.reverse, b, ?_, ?_, hab⟩
      · rw [← List.reverse_cons, ← hbs, List.reverse_reverse]
      · rwa [← List.forall₂_reverse_iff, List.reverse_reverse]

/-- Machines whose steps stay related, with the same outputs, have the same runs. -/
theorem Run.lockstep {σ τ ω : Type _} {step : σ → α → Option (σ × ω)} {step' : τ → β → Option (τ × ω)}
    {states : σ → τ → Prop} {inputs : α → β → Prop}
    (hstep : ∀ state state' event event', states state state' → inputs event event' →
      Option.Rel (fun result result' => states result.1 result'.1 ∧ result.2 = result'.2)
        (step state event) (step' state' event'))
    {start state : σ} {start' : τ} {events : List α} (hstart : states start start')
    (h : Run step start events state) {events' : List β} (hevents : List.Forall₂ inputs events events') :
    ∃ state', Run step' start' events' state' ∧ states state state' := by
  induction h generalizing events' with
  | nil =>
    cases hevents
    exact ⟨start', .nil, hstart⟩
  | snoc _ last ih =>
    obtain ⟨earlier', event', rfl, hearlier, hevent⟩ := forall₂_of_snoc hevents
    obtain ⟨between, hrun, hrelated⟩ := ih hearlier
    have hlast := hstep _ _ _ _ hrelated hevent
    rw [last] at hlast
    cases hresult : step' between event' with
    | none =>
      rw [hresult] at hlast
      cases hlast
    | some result =>
      rw [hresult] at hlast
      cases hlast with
      | some hboth => exact ⟨result.1, hrun.snoc hresult, hboth.1⟩

end EverscaleLedger.Library
