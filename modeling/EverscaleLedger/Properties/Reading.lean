import EverscaleLedger.Properties.Cells
import EverscaleLedger.Source.Message

/-! Where the readers of `message.c` leave the bit cursor. A reader that succeeds
has moved the cursor of its slice and nothing else, so the layout of a message is
given by positions in the slice it is read from. -/
namespace EverscaleLedger.Properties

open Library Source

namespace Slice

def movedTo (slice : SliceData) (position : Nat) : SliceData :=
  { slice with dataWindowStart := position }

@[simp] theorem movedTo_start (slice : SliceData) (position : Nat) :
    (movedTo slice position).dataWindowStart = position := rfl

@[simp] theorem movedTo_end (slice : SliceData) (position : Nat) :
    (movedTo slice position).dataWindowEnd = slice.dataWindowEnd := rfl

@[simp] theorem movedTo_movedTo (slice : SliceData) (first second : Nat) :
    movedTo (movedTo slice first) second = movedTo slice second := rfl

@[simp] theorem movedTo_self (slice : SliceData) : movedTo slice slice.dataWindowStart = slice := rfl

/-- The integer of `bits` bits at a position, zero where there is none. -/
def intAt (slice : SliceData) (position bits : Nat) : Nat :=
  match (movedTo slice position).getInt bits with
  | .ok value => value
  | .error _ => 0

def bitAt (slice : SliceData) (position : Nat) : Nat :=
  match (movedTo slice position).getBits 0 1 with
  | .ok value => value
  | .error _ => 0

@[simp] theorem intAt_movedTo (slice : SliceData) (first position bits : Nat) :
    intAt (movedTo slice first) position bits = intAt slice position bits := rfl

@[simp] theorem bitAt_movedTo (slice : SliceData) (first position : Nat) :
    bitAt (movedTo slice first) position = bitAt slice position := rfl

/-- The length of an address: without one it is its two tag bits, else tag,
anycast bit, workchain and account. -/
def addressBits (slice : SliceData) (position : Nat) : Nat :=
  if intAt slice position 2 = 2 then 267 else 2

@[simp] theorem addressBits_movedTo (slice : SliceData) (first position : Nat) :
    addressBits (movedTo slice first) position = addressBits slice position := rfl

theorem two_le_addressBits (slice : SliceData) (position : Nat) :
    2 ≤ addressBits slice position := by
  unfold addressBits
  split <;> omega

end Slice

open Slice

section

variable {slice next : SliceData} {bits value : Nat}

theorem moveBy_ok (h : slice.moveBy bits = .ok next) :
    next = movedTo slice (slice.dataWindowStart + bits) ∧
      slice.dataWindowStart + bits ≤ slice.dataWindowEnd := by
  simp only [SliceData.moveBy, bind_eq_ok, validate_eq_ok, pure_eq_ok] at h
  obtain ⟨_, hle, rfl⟩ := h
  exact ⟨rfl, hle⟩

theorem getNextBit_ok (h : slice.getNextBit = .ok (value, next)) :
    next = movedTo slice (slice.dataWindowStart + 1) ∧
      value = bitAt slice slice.dataWindowStart := by
  simp only [SliceData.getNextBit, bind_eq_ok, pure_eq_ok, Prod.mk.injEq] at h
  obtain ⟨bit, hbit, middle, hmove, rfl, rfl⟩ := h
  refine ⟨(moveBy_ok hmove).1, ?_⟩
  unfold bitAt
  rw [movedTo_self, hbit]

theorem getNextByte_ok (h : slice.getNextByte = .ok (value, next)) :
    next = movedTo slice (slice.dataWindowStart + 8) := by
  simp only [SliceData.getNextByte, bind_eq_ok, pure_eq_ok, Prod.mk.injEq] at h
  obtain ⟨_, _, middle, hmove, _, rfl⟩ := h
  exact (moveBy_ok hmove).1

theorem getNextInt_ok (h : slice.getNextInt bits = .ok (value, next)) :
    next = movedTo slice (slice.dataWindowStart + bits) ∧
      value = intAt slice slice.dataWindowStart bits ∧
      slice.dataWindowStart + bits ≤ slice.dataWindowEnd := by
  simp only [SliceData.getNextInt, bind_eq_ok, pure_eq_ok, Prod.mk.injEq] at h
  obtain ⟨read, hread, middle, hmove, rfl, rfl⟩ := h
  refine ⟨(moveBy_ok hmove).1, ?_, (moveBy_ok hmove).2⟩
  unfold intAt
  rw [movedTo_self, hread]

theorem deserializeValue_ok {length : Nat} {bytes : List UInt8}
    (h : deserializeValue slice length = .ok (next, bytes)) :
    next = movedTo slice (slice.dataWindowStart + length * 8) := by
  simp only [deserializeValue, bind_eq_ok, pure_eq_ok, Prod.mk.injEq] at h
  obtain ⟨_, _, middle, hmove, rfl, _⟩ := h
  exact (moveBy_ok hmove).1

theorem deserializeAddress_ok {wc wc' : UInt8} {address address' : List UInt8}
    (h : deserializeAddress slice wc address = .ok (next, wc', address')) :
    next = movedTo slice
      (slice.dataWindowStart + addressBits slice slice.dataWindowStart) := by
  simp only [deserializeAddress, bind_eq_ok, validate_eq_ok] at h
  obtain ⟨⟨kind, s1⟩, hkind, _, hvalid, h⟩ := h
  obtain ⟨rfl, hkind, _⟩ := getNextInt_ok hkind
  unfold addressBits
  simp only at h hvalid
  split at h
  next htwo =>
    rw [if_pos (hkind ▸ htwo)]
    simp only [bind_eq_ok, pure_eq_ok, Prod.mk.injEq] at h
    obtain ⟨⟨anycast, s2⟩, hbit, ⟨wcByte, s3⟩, hbyte, _, _, s4, hmove, rfl, _⟩ := h
    obtain ⟨rfl, _⟩ := getNextBit_ok hbit
    obtain rfl := getNextByte_ok hbyte
    obtain ⟨rfl, _⟩ := moveBy_ok hmove
    rfl
  next htwo =>
    rw [if_neg (hkind ▸ htwo)]
    rw [pure_eq_ok, Prod.mk.injEq] at h
    exact h.1.symm

end

namespace RawCell

/-- The slice over the data of a cell. -/
def slice (c : RawCell) : SliceData := ⟨c.data, 0, c.data.length * 8, c.data.length⟩

theorem length_data_le (c : RawCell) : c.data.length ≤ 128 := by
  rw [c.data_length, dataSizeOf, Nat.shiftRight_eq_div_pow]
  have hd2 := c.d2.toNat_lt
  split <;> omega

end RawCell

theorem Holds.fromCell {cell : Cell} {c : RawCell} {rest : List UInt8} (h : Holds cell c rest) :
    SliceData.fromCell cell = .ok c.slice := by
  have hlength := c.length_data_le
  unfold SliceData.fromCell
  rw [h.getData, ok_bind, h.getDataSize, ok_bind]
  unfold SliceData.init RawCell.slice
  rw [List.take_left, Nat.mod_eq_of_lt (by omega)]
  rfl

end EverscaleLedger.Properties
