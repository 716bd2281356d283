import Mathlib

/-! Acyclic tables, in which every entry points to later ones only. A value of
an entry is defined by recursion over the entries it points to, whatever they
share. -/
namespace EverscaleLedger.Library

variable {β : Type _}

structure Dag (size : Nat) where
  children : Fin size → List (Fin size)
  later : ∀ i, ∀ j ∈ children i, i < j

namespace Dag

variable {size : Nat}

/-- The value at an entry, from the values at its children. -/
def value (dag : Dag size) (combine : Fin size → List β → β) (i : Fin size) : β :=
  combine i ((dag.children i).attach.map fun child => dag.value combine child.val)
termination_by size - i.val
decreasing_by
  have hlater := dag.later i child.val child.property
  omega

theorem value_eq (dag : Dag size) (combine : Fin size → List β → β) (i : Fin size) :
    dag.value combine i = combine i ((dag.children i).map (dag.value combine)) := by
  rw [value]
  congr 1
  exact List.attach_map_val

/-- Induction from the last entry down: a property that an entry inherits from
its children holds everywhere. -/
theorem induction (dag : Dag size) (property : Fin size → Prop)
    (hstep : ∀ i, (∀ j ∈ dag.children i, property j) → property i) (i : Fin size) :
    property i := by
  apply hstep
  intro j hj
  exact dag.induction property hstep j
termination_by size - i.val
decreasing_by
  have hlater := dag.later i j hj
  omega

end Dag
end EverscaleLedger.Library
