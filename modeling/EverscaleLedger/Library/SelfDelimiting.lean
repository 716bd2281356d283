import Mathlib

/-! Codes that carry their own end: what stands at the front of a stream determines
the value, and so does a row of codes. -/
namespace EverscaleLedger.Library

variable {α β : Type _}

/-- Two values whose codes start the same stream are the same. -/
def SelfDelimiting (code : α → List β) : Prop :=
  ∀ a b rest rest', code a ++ rest = code b ++ rest' → a = b

namespace SelfDelimiting

variable {code : α → List β}

theorem rest_eq (h : SelfDelimiting code) {a b : α} {rest rest' : List β}
    (heq : code a ++ rest = code b ++ rest') : a = b ∧ rest = rest' := by
  obtain rfl := h a b rest rest' heq
  exact ⟨rfl, List.append_cancel_left heq⟩

theorem injective (h : SelfDelimiting code) : Function.Injective code := by
  intro a b heq
  apply h a b [] []
  rw [heq]

/-- Different codes of one length carry their end. -/
theorem of_length (hlength : ∀ a b, (code a).length = (code b).length)
    (hinj : Function.Injective code) : SelfDelimiting code := by
  intro a b rest rest' heq
  exact hinj (List.append_inj heq (hlength a b)).1

/-- Of two rows of codes at the front of one stream, the longer one continues the
shorter one. The induction is on the shorter row. -/
theorem flatMap_continues (h : SelfDelimiting code) {as bs : List α} {rest rest' : List β}
    (heq : as.flatMap code ++ rest = bs.flatMap code ++ rest') (hle : as.length ≤ bs.length) :
    ∃ more, bs = as ++ more ∧ rest = more.flatMap code ++ rest' := by
  induction as generalizing bs with
  | nil => exact ⟨bs, rfl, heq⟩
  | cons a as ih =>
    cases bs with
    | nil => simp at hle
    | cons b bs =>
      simp only [List.flatMap_cons, List.append_assoc] at heq
      obtain ⟨rfl, htail⟩ := h.rest_eq heq
      obtain ⟨more, rfl, hrest⟩ := ih htail (Nat.le_of_succ_le_succ hle)
      exact ⟨more, rfl, hrest⟩

end SelfDelimiting

end EverscaleLedger.Library
