import EverscaleLedger.Properties.BitReaders
import EverscaleLedger.Properties.PrefixedCell

/-! The readers on what is left of a slice: a reader whose field comes next returns
it, and leaves what is behind it. -/
namespace EverscaleLedger.Properties

open Library Source Slice

/-- The bits from the cursor to the end of the window. -/
structure Unread (slice : SliceData) (bits : List Bool) : Prop where
  sound : Sound slice
  window : slice.dataWindowStart + bits.length = slice.dataWindowEnd
  bits_eq : bitsAt slice slice.dataWindowStart bits.length = bits

/-- A reader returns a value and leaves these bits. -/
def Takes (result : Outcome (α × SliceData)) (value : α) (rest : List Bool) : Prop :=
  ∃ next, result = .ok (value, next) ∧ Unread next rest

theorem RawCell.unread (c : RawCell) : Unread c.slice (Bits.ofBytes c.data) where
  sound := c.slice_sound
  window := by
    rw [Bits.length_ofBytes]
    exact (Nat.zero_add _).trans (Nat.mul_comm _ _)
  bits_eq := List.take_length

theorem RawCell.Encodes.unread {c : RawCell} {bits : List Bool} {refs : List UInt8}
    (h : c.Encodes bits refs) : Unread c.slice (Bits.completed bits) := h.ofBytes_data ▸ c.unread

namespace Unread

variable {slice : SliceData} {bits field rest : List Bool}

theorem remainingBits (h : Unread slice bits) : slice.remainingBits = bits.length := by
  have hwindow := h.window
  unfold SliceData.remainingBits
  omega

theorem end_le (h : Unread slice (field ++ rest)) :
    slice.dataWindowStart + field.length ≤ slice.dataWindowEnd := by
  have hwindow := h.window
  rw [List.length_append] at hwindow
  omega

theorem split (h : Unread slice (field ++ rest)) :
    bitsAt slice slice.dataWindowStart field.length = field ∧
      bitsAt slice (slice.dataWindowStart + field.length) rest.length = rest := by
  have hbits := h.bits_eq
  rw [List.length_append, bitsAt_add] at hbits
  exact List.append_inj hbits (h.sound.length_bitsAt h.end_le)

theorem front (h : Unread slice (field ++ rest)) :
    bitsAt slice slice.dataWindowStart field.length = field := h.split.1

theorem skip (h : Unread slice (field ++ rest)) :
    Unread (movedTo slice (slice.dataWindowStart + field.length)) rest := by
  have hwindow := h.window
  rw [List.length_append, ← Nat.add_assoc] at hwindow
  exact ⟨h.sound.moved _, hwindow, h.split.2⟩

theorem getNextInt (h : Unread slice (field ++ rest)) {count : Nat} (hlength : field.length = count)
    (hcount : count ≤ 64) : Takes (slice.getNextInt count) (Bits.number field) rest := by
  subst hlength
  have hread := getNextInt_eq h.sound hcount h.end_le
  rw [h.front] at hread
  exact ⟨_, hread, h.skip⟩

theorem getNextByte (h : Unread slice (field ++ rest)) (hlength : field.length = 8) :
    Takes slice.getNextByte (Bits.number field) rest := by
  have hread := getNextByte_eq h.sound (hlength ▸ h.end_le)
  rw [← hlength, h.front] at hread
  exact ⟨_, hread, h.skip⟩

theorem getNextBit {bit : Bool} (h : Unread slice (bit :: rest)) :
    Takes slice.getNextBit bit.toNat rest := by
  have h : Unread slice ([bit] ++ rest) := h
  have hread := getNextBit_eq h.sound h.end_le
  rw [show 1 = [bit].length from rfl, h.front] at hread
  cases bit <;> exact ⟨_, hread, h.skip⟩

theorem moveBy (h : Unread slice (field ++ rest)) :
    ∃ next, slice.moveBy field.length = .ok next ∧ Unread next rest :=
  ⟨_, moveBy_eq h.end_le, h.skip⟩

theorem deserializeValue {value : List UInt8} (h : Unread slice (Bits.ofBytes value ++ rest)) :
    ∃ next, Source.deserializeValue slice value.length = .ok (next, value) ∧ Unread next rest := by
  have hlength := Bits.length_ofBytes value
  have hread := deserializeValue_eq h.sound (hlength ▸ h.end_le)
  rw [← hlength, h.front, Bits.pack_ofBytes] at hread
  exact ⟨_, hread, h.skip⟩

/-- No reader goes past the end of the window. -/
theorem getNextInt_short (h : Unread slice bits) {count : Nat} (hshort : bits.length < count)
    {result : Nat × SliceData} : slice.getNextInt count ≠ .ok result := by
  intro hread
  have hend := (getNextInt_ok hread).2.2
  have hwindow := h.window
  omega

theorem deserializeValue_short (h : Unread slice bits) {length : Nat}
    (hshort : bits.length < 8 * length) {result : SliceData × List UInt8} :
    Source.deserializeValue slice length ≠ .ok result := by
  intro hread
  simp only [Source.deserializeValue, bind_eq_ok] at hread
  obtain ⟨_, -, next, hmove, -⟩ := hread
  have hend := (moveBy_ok hmove).2
  have hwindow := h.window
  omega

end Unread

/-- A big-endian value is the number of its bits. -/
theorem readUintBE_eq (bytes : List UInt8) : readUintBE bytes = Bits.number (Bits.ofBytes bytes) := by
  have hfold : ∀ start, bytes.foldl (fun value byte => value * 256 + byte.toNat) start =
      start * 2 ^ (8 * bytes.length) + Bits.number (Bits.ofBytes bytes) := by
    induction bytes with
    | nil => simp [Bits.number]
    | cons byte rest ih =>
      intro start
      rw [List.foldl_cons, ih, Bits.ofBytes_cons, Bits.number_append, Bits.number_ofByte,
        Bits.length_ofBytes, List.length_cons,
        show 8 * (rest.length + 1) = 8 * rest.length + 8 from rfl, Nat.pow_add]
      ring
  have hzero := hfold 0
  rwa [Nat.zero_mul, Nat.zero_add] at hzero

end EverscaleLedger.Properties
