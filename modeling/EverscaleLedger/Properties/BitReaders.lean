import EverscaleLedger.Library.Bits
import EverscaleLedger.Properties.Reading

/-! The readers of `slice_data.c` and `message.c` on the bit string of a slice: inside
the window they return the bits at the cursor, at its end they throw, and they
never leave the data. -/
namespace EverscaleLedger.Properties

open Library Source Slice

namespace Slice

/-- The slice may touch its data only, and the window lies inside it. -/
structure Sound (slice : SliceData) : Prop where
  size : slice.dataSizeBytes = slice.data.length
  length : slice.data.length ≤ 128
  window : slice.dataWindowEnd ≤ 8 * slice.data.length

theorem Sound.moved {slice : SliceData} (h : Sound slice) (position : Nat) :
    Sound (movedTo slice position) := ⟨h.size, h.length, h.window⟩

/-- A slice whose window lies in its data. -/
structure Framed (slice : SliceData) : Prop where
  size : slice.data.length ≤ slice.dataSizeBytes
  window : slice.dataWindowEnd ≤ 8 * slice.data.length

theorem Sound.framed {slice : SliceData} (h : Sound slice) : Framed slice :=
  ⟨Nat.le_of_eq h.size.symm, h.window⟩

/-- The bits of the data at a position. -/
def bitsAt (slice : SliceData) (position count : Nat) : List Bool :=
  Bits.window (Bits.ofBytes slice.data) position count

@[simp] theorem bitsAt_movedTo (slice : SliceData) (first position count : Nat) :
    bitsAt (movedTo slice first) position count = bitsAt slice position count := rfl

theorem bitsAt_add (slice : SliceData) (position first second : Nat) :
    bitsAt slice position (first + second) =
      bitsAt slice position first ++ bitsAt slice (position + first) second :=
  Bits.window_add _ _ _ _

theorem Sound.length_bitsAt {slice : SliceData} (h : Sound slice) {position count : Nat}
    (hend : position + count ≤ slice.dataWindowEnd) : (bitsAt slice position count).length = count :=
  Bits.length_window (by
    have hwindow := h.window
    rw [Bits.length_ofBytes]
    omega)

end Slice

theorem RawCell.slice_sound (c : RawCell) : Sound c.slice where
  size := rfl
  length := c.length_data_le
  window := Nat.le_of_eq (Nat.mul_comm _ _)

/-- Where `SliceData_get_bits` looks: its byte index has eight bits. -/
def reachedPosition (position : Nat) : Nat := position % 2048

/-- The bits that `SliceData_get_bits` returns: over a byte boundary it fills the byte
with the bits in front. -/
def returnedBits (slice : SliceData) (position bits : Nat) : List Bool :=
  if position % 8 + bits ≤ 8 then bitsAt slice position bits
  else bitsAt slice (position - (8 - bits)) 8

section

variable {slice : SliceData} {offset bits : Nat}

/-- A read inside one byte. -/
theorem number_bitsAt_byte {position : Nat} (hbyte : position / 8 < slice.data.length)
    (h : position % 8 + bits ≤ 8) :
    Bits.number (bitsAt slice position bits) =
      slice.data[position / 8].toNat >>> (8 - position % 8 - bits) &&& (1 <<< bits) - 1 := by
  have hsplit : bitsAt slice position bits =
      Bits.window (Bits.ofBytes slice.data) (8 * (position / 8) + position % 8) bits := by
    unfold bitsAt
    rw [Nat.div_add_mod]
  rw [hsplit, Bits.window_byte hbyte h, Bits.number_window (by simpa using h), Bits.length_ofByte,
    Bits.number_ofByte, Nat.shiftRight_eq_div_pow, Nat.one_shiftLeft,
    Nat.and_two_pow_sub_one_eq_mod]

/-- A byte that is put together from two. -/
theorem number_bitsAt_two_bytes {position : Nat} (hbits : bits ≤ 8)
    (hnext : position / 8 + 1 < slice.data.length) (h : 8 < position % 8 + bits) :
    Bits.number (bitsAt slice (position - (8 - bits)) 8) =
      (((slice.data[position / 8].toNat <<< 8 ||| slice.data[position / 8 + 1].toNat) >>>
        (8 - position % 8)) >>> (8 - bits)) % 256 := by
  have hstart : position - (8 - bits) = 8 * (position / 8) + (position % 8 - (8 - bits)) := by
    omega
  have hword : slice.data[position / 8].toNat <<< 8 ||| slice.data[position / 8 + 1].toNat =
      Bits.number (Bits.ofByte slice.data[position / 8] ++
        Bits.ofByte slice.data[position / 8 + 1]) := by
    rw [Bits.number_append, Bits.number_ofByte, Bits.number_ofByte, Bits.length_ofByte,
      Nat.shiftLeft_eq, Nat.mul_comm, Nat.two_pow_add_eq_or_of_lt (UInt8.toNat_lt _)]
  unfold bitsAt
  rw [hstart, Bits.window_two_bytes hnext (by omega), hword, ← Nat.shiftRight_add,
    Nat.shiftRight_eq_div_pow, Bits.number_window (by simp; omega), List.length_append,
    Bits.length_ofByte, Bits.length_ofByte]
  congr 3
  omega

theorem getBits_returned (h : Framed slice) (hpos : 0 < bits) (hbits : bits ≤ 8)
    (hfits : offset + bits ≤ slice.remainingBits) :
    slice.getBits offset bits = .ok (Bits.number
      (returnedBits slice (reachedPosition (slice.dataWindowStart + offset)) bits)) := by
  have hsize := h.size
  have hwindow := h.window
  have hend : slice.dataWindowStart + offset + bits ≤ slice.dataWindowEnd := by
    unfold SliceData.remainingBits at hfits
    omega
  unfold SliceData.getBits returnedBits reachedPosition
  rw [validate_of_true hfits, ok_bind, validate_of_true ⟨by omega, hbits⟩, ok_bind]
  simp only
  generalize slice.dataWindowStart + offset = index at hend ⊢
  have hq : index / 8 % 256 = index % 2048 / 8 := by omega
  have hr : index % 8 = index % 2048 % 8 := by omega
  have hle : index % 2048 ≤ index := Nat.mod_le ..
  rw [hq, hr]
  generalize index % 2048 = position at hle ⊢
  have hbyte : position / 8 < slice.data.length := by omega
  have hload := load_eq_ok.mpr (List.getElem?_eq_getElem hbyte)
  by_cases hone : position % 8 + bits ≤ 8
  · rw [if_pos hone, number_bitsAt_byte hbyte hone]
    split
    next hzero =>
      -- nothing is in front of an aligned read
      have hsmall : slice.data[position / 8].toNat >>> (8 - bits) < 2 ^ bits := by
        rw [Nat.shiftRight_eq_div_pow, Nat.div_lt_iff_lt_mul (Nat.two_pow_pos _), ← pow_add,
          show bits + (8 - bits) = 8 by omega]
        exact UInt8.toNat_lt _
      rw [hload, ok_bind, hzero, Nat.sub_zero, Nat.one_shiftLeft, Nat.and_two_pow_sub_one_eq_mod,
        Nat.mod_eq_of_lt hsmall]
      rfl
    next =>
      rw [if_pos (by omega), hload, ok_bind]
      rfl
  · have hnext : position / 8 + 1 < slice.data.length := by omega
    have hload' := load_eq_ok.mpr (List.getElem?_eq_getElem hnext)
    rw [if_neg (by omega), if_neg (by omega), if_neg hone, if_pos (by omega), hload, ok_bind,
      if_pos (by omega), hload', ok_bind, number_bitsAt_two_bytes hbits hnext (by omega)]
    rfl

/-- The bits in front of those that were asked for. -/
theorem number_returnedBits {position : Nat} (hbits : bits ≤ 8)
    (hend : position + bits ≤ 8 * slice.data.length) (h : 8 < position % 8 + bits) :
    Bits.number (returnedBits slice position bits) =
      Bits.number (bitsAt slice (position - (8 - bits)) (8 - bits)) * 2 ^ bits +
        Bits.number (bitsAt slice position bits) := by
  have hsplit : bitsAt slice (position - (8 - bits)) 8 =
      bitsAt slice (position - (8 - bits)) (8 - bits) ++ bitsAt slice position bits := by
    have hadd := bitsAt_add slice (position - (8 - bits)) (8 - bits) bits
    rwa [Nat.sub_add_cancel hbits, Nat.sub_add_cancel (by omega)] at hadd
  have hlength : (bitsAt slice position bits).length = bits :=
    Bits.length_window (by simpa using hend)
  rw [returnedBits, if_neg (by omega), hsplit, Bits.number_append, hlength]

theorem reachedPosition_eq (h : Sound slice) {position : Nat}
    (hend : position ≤ slice.dataWindowEnd) : reachedPosition position = position := by
  have hwindow := h.window
  have hlength := h.length
  exact Nat.mod_eq_of_lt (by omega)

theorem getByte_eq (h : Sound slice)
    (hend : slice.dataWindowStart + offset + 8 ≤ slice.dataWindowEnd) :
    slice.getByte offset =
      .ok (Bits.number (bitsAt slice (slice.dataWindowStart + offset) 8)) := by
  have hfits : offset + 8 ≤ slice.remainingBits := by
    unfold SliceData.remainingBits
    omega
  rw [SliceData.getByte, getBits_returned h.framed (by decide) (Nat.le_refl 8) hfits,
    reachedPosition_eq h (by omega), returnedBits, Nat.sub_self, Nat.sub_zero, ite_self]

theorem getBit_eq (h : Sound slice)
    (hend : slice.dataWindowStart + offset + 1 ≤ slice.dataWindowEnd) :
    slice.getBits offset 1 =
      .ok (Bits.number (bitsAt slice (slice.dataWindowStart + offset) 1)) := by
  have hfits : offset + 1 ≤ slice.remainingBits := by
    unfold SliceData.remainingBits
    omega
  rw [getBits_returned h.framed (Nat.le_refl 1) (by decide) hfits, reachedPosition_eq h (by omega),
    returnedBits, if_pos (Nat.succ_le_of_lt (Nat.mod_lt _ (by decide)))]

/-- The whole bytes, at the top of the accumulator. -/
theorem getIntBytes_eq (h : Sound slice) {bytes : Nat} (hbytes : bytes ≤ 8)
    (hend : slice.dataWindowStart + 8 * bytes ≤ slice.dataWindowEnd) :
    slice.getIntBytes bytes =
      .ok (Bits.number (bitsAt slice slice.dataWindowStart (8 * bytes)) * 2 ^ (64 - 8 * bytes)) := by
  let state : Nat → Nat := fun j =>
    Bits.number (bitsAt slice slice.dataWindowStart (8 * j)) * 2 ^ (64 - 8 * j)
  let step : Nat → Nat → Outcome Nat := fun value i => do
    let byte ← slice.getByte (8 * i)
    pure (value ||| (byte <<< (8 * (7 - i))) % 2 ^ 64)
  have hstep : ∀ j < bytes, step (state j) j = .ok (state (j + 1)) := by
    intro j hj
    simp only [step, state]
    rw [getByte_eq h (by omega), ok_bind]
    have hsplit : bitsAt slice slice.dataWindowStart (8 * (j + 1)) =
        bitsAt slice slice.dataWindowStart (8 * j) ++
          bitsAt slice (slice.dataWindowStart + 8 * j) 8 := bitsAt_add ..
    have hlength := h.length_bitsAt (show slice.dataWindowStart + 8 * j + 8 ≤ _ by omega)
    have hlt := Bits.number_lt (bitsAt slice (slice.dataWindowStart + 8 * j) 8)
    rw [hlength] at hlt
    generalize hbyte : Bits.number (bitsAt slice (slice.dataWindowStart + 8 * j) 8) = byte at hlt ⊢
    have hsmall : byte <<< (8 * (7 - j)) < 2 ^ (64 - 8 * j) := by
      rw [Nat.shiftLeft_eq, show 64 - 8 * j = 8 + 8 * (7 - j) by omega, pow_add]
      exact Nat.mul_lt_mul_of_pos_right hlt (Nat.two_pow_pos _)
    have hword : byte <<< (8 * (7 - j)) < 2 ^ 64 :=
      Nat.lt_of_lt_of_le hsmall (Nat.pow_le_pow_right (by decide) (Nat.sub_le _ _))
    rw [Nat.mod_eq_of_lt hword, Nat.mul_comm _ (2 ^ (64 - 8 * j)),
      ← Nat.two_pow_add_eq_or_of_lt hsmall, hsplit, Bits.number_append, hlength, hbyte,
      Nat.shiftLeft_eq, show 64 - 8 * j = 8 + 8 * (7 - j) by omega,
      show 64 - 8 * (j + 1) = 8 * (7 - j) by omega, pow_add, Nat.add_mul, pure_eq_ok]
    congr 1
    ring
  have hzero : state 0 = 0 := by
    simp only [state, bitsAt, Bits.window, Nat.mul_zero, List.take_zero]
    rfl
  have hfold := @foldlM_range_eq_ok _ _ step state bytes hstep
  rw [hzero] at hfold
  exact hfold

/-- Bits that two numbers share at a place are set once. -/
theorem lor_overlap {front low rest : List Bool} :
    Bits.number (front ++ low) <<< rest.length ||| Bits.number (low ++ rest) =
      Bits.number (front ++ low ++ rest) := by
  have hlow := Bits.number_lt low
  have hrest := Bits.number_lt rest
  have hfront : Bits.number (front ++ low) ||| Bits.number low = Bits.number (front ++ low) := by
    rw [Bits.number_append, Nat.mul_comm, Nat.two_pow_add_eq_or_of_lt hlow, Nat.or_assoc,
      Nat.or_self]
  have hjoin : ∀ bits : List Bool, Bits.number (bits ++ rest) =
      Bits.number bits <<< rest.length ||| Bits.number rest := by
    intro bits
    rw [Bits.number_append, Nat.shiftLeft_eq, Nat.mul_comm, Nat.two_pow_add_eq_or_of_lt hrest]
  rw [hjoin low, hjoin (front ++ low), ← Nat.or_assoc, ← Nat.shiftLeft_or_distrib, hfront]

/-- The rest of an integer, behind its whole bytes: what comes with it is there already. -/
theorem lor_returnedBits (h : Sound slice) {position bytes remainder : Nat}
    (hpos : 0 < remainder) (hlt : remainder < 8)
    (hend : position + 8 * bytes + remainder ≤ slice.dataWindowEnd) :
    Bits.number (bitsAt slice position (8 * bytes)) <<< remainder |||
        Bits.number (returnedBits slice (position + 8 * bytes) remainder) %
          2 ^ (8 * bytes + remainder) =
      Bits.number (bitsAt slice position (8 * bytes + remainder)) := by
  have hwindow := h.window
  have hlength := h.length_bitsAt hend
  have hrest := Bits.number_lt (bitsAt slice (position + 8 * bytes) remainder)
  rw [hlength] at hrest
  by_cases hone : (position + 8 * bytes) % 8 + remainder ≤ 8
  · have hsmall : 2 ^ remainder ≤ 2 ^ (8 * bytes + remainder) :=
      Nat.pow_le_pow_right (by decide) (by omega)
    rw [returnedBits, if_pos hone, Nat.mod_eq_of_lt (Nat.lt_of_lt_of_le hrest hsmall), bitsAt_add,
      Bits.number_append, hlength, Nat.shiftLeft_eq, Nat.mul_comm (Bits.number _),
      Nat.two_pow_add_eq_or_of_lt hrest]
  · cases bytes with
    | zero =>
      -- there is nothing the bits in front could coincide with, but they are cut off
      rw [number_returnedBits (Nat.le_of_lt hlt) (by omega) (by omega), Nat.mul_zero, Nat.zero_add,
        Nat.add_zero, Nat.mul_comm, Nat.mul_add_mod]
      rw [Nat.mul_zero, Nat.add_zero] at hrest
      have hnone : Bits.number (bitsAt slice position 0) = 0 := by
        simp [bitsAt, Bits.window, Bits.number]
      rw [Nat.mod_eq_of_lt hrest, hnone, Nat.zero_shiftLeft, Nat.zero_or]
    | succ bytes =>
      have hstart : position + 8 * (bytes + 1) - (8 - remainder) =
          position + (8 * bytes + remainder) := by omega
      have hfirst : bitsAt slice position (8 * (bytes + 1)) =
          bitsAt slice position (8 * bytes + remainder) ++
            bitsAt slice (position + (8 * bytes + remainder)) (8 - remainder) := by
        rw [← bitsAt_add]
        congr 1
        omega
      have hreturned : returnedBits slice (position + 8 * (bytes + 1)) remainder =
          bitsAt slice (position + (8 * bytes + remainder)) (8 - remainder) ++
            bitsAt slice (position + 8 * (bytes + 1)) remainder := by
        have hadd := bitsAt_add slice (position + (8 * bytes + remainder)) (8 - remainder) remainder
        rw [Nat.sub_add_cancel (Nat.le_of_lt hlt), show position + (8 * bytes + remainder) +
          (8 - remainder) = position + 8 * (bytes + 1) by omega] at hadd
        rw [returnedBits, if_neg hone, hstart, hadd]
      have hbyte := Bits.number_lt (returnedBits slice (position + 8 * (bytes + 1)) remainder)
      rw [Nat.mod_eq_of_lt, hfirst, hreturned]
      · have hoverlap := @lor_overlap (bitsAt slice position (8 * bytes + remainder))
          (bitsAt slice (position + (8 * bytes + remainder)) (8 - remainder))
          (bitsAt slice (position + 8 * (bytes + 1)) remainder)
        rw [hlength, ← hfirst] at hoverlap
        rw [← hfirst, hoverlap, bitsAt_add]
      · refine Nat.lt_of_lt_of_le hbyte (Nat.pow_le_pow_right (by decide) ?_)
        rw [hreturned, List.length_append, hlength,
          h.length_bitsAt (show position + (8 * bytes + remainder) + (8 - remainder) ≤ _ by omega)]
        omega

/-- Integers of any width are exact. -/
theorem getInt_eq (h : Sound slice) (hbits : bits ≤ 64)
    (hend : slice.dataWindowStart + bits ≤ slice.dataWindowEnd) :
    slice.getInt bits = .ok (Bits.number (bitsAt slice slice.dataWindowStart bits)) := by
  have hwindow := h.window
  have hlength := h.length
  have hremaining : bits ≤ slice.remainingBits := by
    unfold SliceData.remainingBits
    omega
  unfold SliceData.getInt
  rw [validate_of_true hremaining, ok_bind, validate_of_true hbits, ok_bind]
  split
  next hzero =>
    rw [hzero]
    rfl
  next hpos =>
    have hwhole := getIntBytes_eq h (show bits / 8 ≤ 8 by omega) (by omega)
    simp only [hwhole, ok_bind]
    split
    next hremainder =>
      have hrest := getBits_returned h.framed (Nat.pos_of_ne_zero hremainder)
        (show bits % 8 ≤ 8 by omega) (show bits / 8 * 8 + bits % 8 ≤ slice.remainingBits by omega)
      have hreached : reachedPosition (slice.dataWindowStart + bits / 8 * 8) =
          slice.dataWindowStart + 8 * (bits / 8) := by
        unfold reachedPosition
        omega
      have hjoin := lor_returnedBits h (Nat.pos_of_ne_zero hremainder) (Nat.mod_lt bits (by decide))
        (show slice.dataWindowStart + 8 * (bits / 8) + bits % 8 ≤ slice.dataWindowEnd by omega)
      rw [hrest, ok_bind, hreached, pure_eq_ok, Nat.shiftRight_or_distrib]
      rw [Nat.div_add_mod] at hjoin
      rw [← hjoin]
      congr 1
      · rw [Nat.shiftLeft_eq, Nat.shiftRight_eq_div_pow,
          show 64 - 8 * (bits / 8) = bits % 8 + (64 - bits) by omega, pow_add, ← Nat.mul_assoc,
          Nat.mul_div_cancel _ (Nat.two_pow_pos _)]
      · rw [show 8 * (7 - bits / 8) + (8 - bits % 8) = 64 - bits by omega, Nat.shiftLeft_eq,
          Nat.shiftRight_eq_div_pow, show 2 ^ 64 = 2 ^ bits * 2 ^ (64 - bits) by
            rw [← pow_add, Nat.add_sub_cancel' hbits],
          Nat.mul_mod_mul_right, Nat.mul_div_cancel _ (Nat.two_pow_pos _)]
    next hremainder =>
      rw [Nat.shiftRight_eq_div_pow, show 8 * (bits / 8) = bits by omega,
        Nat.mul_div_cancel _ (Nat.two_pow_pos _)]
      rfl

theorem moveBy_eq (hend : slice.dataWindowStart + bits ≤ slice.dataWindowEnd) :
    slice.moveBy bits = .ok (movedTo slice (slice.dataWindowStart + bits)) := by
  unfold SliceData.moveBy
  rw [validate_of_true hend, ok_bind]
  rfl

/-- One bit at the cursor. -/
theorem getNextBit_eq (h : Sound slice) (hend : slice.dataWindowStart + 1 ≤ slice.dataWindowEnd) :
    slice.getNextBit = .ok (Bits.number (bitsAt slice slice.dataWindowStart 1),
      movedTo slice (slice.dataWindowStart + 1)) := by
  unfold SliceData.getNextBit
  rw [@getBit_eq slice 0 h hend, ok_bind, moveBy_eq hend]
  rfl

theorem getNextByte_eq (h : Sound slice) (hend : slice.dataWindowStart + 8 ≤ slice.dataWindowEnd) :
    slice.getNextByte = .ok (Bits.number (bitsAt slice slice.dataWindowStart 8),
      movedTo slice (slice.dataWindowStart + 8)) := by
  unfold SliceData.getNextByte
  rw [@getByte_eq slice 0 h hend, ok_bind, moveBy_eq hend]
  rfl

theorem getNextInt_eq (h : Sound slice) (hbits : bits ≤ 64)
    (hend : slice.dataWindowStart + bits ≤ slice.dataWindowEnd) :
    slice.getNextInt bits = .ok (Bits.number (bitsAt slice slice.dataWindowStart bits),
      movedTo slice (slice.dataWindowStart + bits)) := by
  unfold SliceData.getNextInt
  rw [getInt_eq h hbits hend, ok_bind, moveBy_eq hend]
  rfl

end

/-! Fields of whole bytes. -/

/-- The high bits of a byte and the low bits of the one before it, put together. -/
theorem lor_spill {shift high low : Nat} (hshift : shift < 8) (hlow : low < 256) :
    (high <<< shift) % 256 ||| low >>> (8 - shift) =
      (high * 256 + low) / 2 ^ (8 - shift) % 256 := by
  have hsplit : 256 = 2 ^ shift * 2 ^ (8 - shift) := by
    rw [← pow_add, Nat.add_sub_cancel' (Nat.le_of_lt hshift)]
    rfl
  have hspill : low / 2 ^ (8 - shift) < 2 ^ shift := by
    rw [Nat.div_lt_iff_lt_mul (Nat.two_pow_pos _), ← hsplit]
    exact hlow
  have hpos := Nat.two_pow_pos (8 - shift)
  rw [Nat.shiftLeft_eq, Nat.shiftRight_eq_div_pow, Nat.mul_comm high, hsplit,
    Nat.mul_mod_mul_left, ← Nat.two_pow_add_eq_or_of_lt hspill, ← Nat.mul_assoc,
    Nat.mul_comm high, Nat.mul_comm (2 ^ shift * high), Nat.mul_add_div hpos, Nat.mod_mul,
    Nat.mul_add_mod, Nat.mod_eq_of_lt hspill, Nat.mul_add_div (Nat.two_pow_pos _),
    Nat.div_eq_of_lt hspill, Nat.add_zero, Nat.add_comm]

section

variable {input : List UInt8} {offset : Nat}

/-- The byte of a field whose bits start at a position. -/
def fieldByte (input : List UInt8) (position : Nat) : UInt8 :=
  Bits.toByte (Bits.window (Bits.ofBytes input) position 8)

theorem fieldByte_spill {index : Nat} (hnext : index + 1 < input.length) (hshift : offset < 8) :
    UInt8.ofNat ((UInt8.ofNat (input[index].toNat <<< offset)).toNat |||
      input[index + 1].toNat >>> (8 - offset)) = fieldByte input (8 * index + offset) := by
  unfold fieldByte
  rw [Bits.window_two_bytes hnext (by omega), Bits.toByte, Bits.number_window (by simp; omega),
    Bits.number_append, Bits.number_ofByte, Bits.number_ofByte, List.length_append,
    Bits.length_ofByte, Bits.length_ofByte, UInt8.toNat_ofNat',
    lor_spill hshift (UInt8.toNat_lt _)]
  congr 4
  omega

theorem fieldByte_aligned {index : Nat} (hindex : index < input.length) :
    fieldByte input (8 * index + 0) = UInt8.ofNat (input[index].toNat <<< 0) := by
  unfold fieldByte
  rw [Bits.window_byte hindex (Nat.le_refl 8)]
  unfold Bits.window
  rw [List.drop_zero, List.take_of_length_le (by rw [Bits.length_ofByte]), Bits.toByte_ofByte,
    Nat.shiftLeft_zero, UInt8.ofNat_toNat]

theorem pack_window {bits : List Bool} {start count : Nat}
    (h : start + 8 * count ≤ bits.length) :
    Bits.pack (Bits.window bits start (8 * count)) =
      (List.range count).map fun k => Bits.toByte (Bits.window bits (start + 8 * k) 8) := by
  unfold Bits.pack
  rw [Bits.length_window h, Nat.mul_div_cancel_left _ (by decide)]
  apply List.map_congr_left
  intro k hk
  rw [List.mem_range] at hk
  unfold Bits.window
  rw [List.drop_take, List.take_take, List.drop_drop, Nat.min_eq_left (by omega)]

/-- The byte that `deserialize_array` holds at index `k` after some of its bytes:
the last of them lacks the bits that the next byte of the input brings. -/
def filledByte (input : List UInt8) (offset outSize count k : Nat) : UInt8 :=
  if k + 1 < count ∨ k + 1 = count ∧ count = outSize then fieldByte input (offset + 8 * k)
  else if k + 1 = count then
    UInt8.ofNat ((input.getD (offset / 8 + k) 0).toNat <<< (offset % 8))
  else 0

def filled (input : List UInt8) (offset outSize count : Nat) : List UInt8 :=
  (List.range outSize).map (filledByte input offset outSize count)

@[simp] theorem length_filled (input : List UInt8) (offset outSize count : Nat) :
    (filled input offset outSize count).length = outSize := by simp [filled]

theorem getElem_filled {outSize count k : Nat} (h : k < (filled input offset outSize count).length) :
    (filled input offset outSize count)[k] = filledByte input offset outSize count k := by
  simp [filled]

theorem orInto_eq {out : List UInt8} {index : Nat} (h : index < out.length) (value : Nat) :
    orInto out index value =
      .ok (out.set index (UInt8.ofNat (out[index].toNat ||| value))) := by
  unfold orInto
  rw [load_eq_ok.mpr (List.getElem?_eq_getElem h), ok_bind, store_eq_ok.mpr ⟨h, rfl⟩]

/-- One byte of a field: it is stored without its last bits, unless it is the last
one, and completes the byte before it. -/
theorem filled_step {outSize j : Nat} (hinput : input.length ≤ 128)
    (hend : offset + 8 * outSize ≤ 8 * input.length) (hj : j < outSize) :
    (do
      let i := (offset / 8) % 256 + j
      validate (i + 1 ≤ input.length % 256) .invalidMessage
      let byte ← load input i
      let out ← store (filled input offset outSize j) j (UInt8.ofNat (byte.toNat <<< (offset % 8)))
      let out ← (if j = outSize - 1 ∧ i + 1 < input.length % 256 then do
          let next ← load input (i + 1)
          orInto out j (next.toNat >>> (8 - offset % 8))
        else pure out)
      if i ≠ (offset / 8) % 256 then orInto out (j - 1) (byte.toNat >>> (8 - offset % 8))
      else pure out) = .ok (filled input offset outSize (j + 1)) := by
  have hindex : offset / 8 + j < input.length := by omega
  have hposition : ∀ k, 8 * (offset / 8 + k) + offset % 8 = offset + 8 * k := by omega
  have hfirst : offset / 8 % 256 = offset / 8 := by omega
  have hsize : input.length % 256 = input.length := by omega
  simp only [hfirst, hsize]
  rw [validate_of_true (by omega), ok_bind, load_eq_ok.mpr (List.getElem?_eq_getElem hindex),
    ok_bind, store_eq_ok.mpr ⟨by rwa [length_filled], rfl⟩, ok_bind]
  generalize hbyte : UInt8.ofNat (input[offset / 8 + j].toNat <<< (offset % 8)) = byte
  -- the byte itself
  have hlast : (if j = outSize - 1 ∧ offset / 8 + j + 1 < input.length then do
        let next ← load input (offset / 8 + j + 1)
        orInto ((filled input offset outSize j).set j byte) j (next.toNat >>> (8 - offset % 8))
      else pure ((filled input offset outSize j).set j byte)) =
      .ok ((filled input offset outSize j).set j
        (filledByte input offset outSize (j + 1) j)) := by
    have hvalue : filledByte input offset outSize (j + 1) j =
        if j + 1 = outSize then fieldByte input (offset + 8 * j) else byte := by
      unfold filledByte
      rw [List.getD_eq_getElem _ _ hindex, hbyte]
      simp
    rw [hvalue]
    split
    next hcase =>
      rw [load_eq_ok.mpr (List.getElem?_eq_getElem hcase.2), ok_bind, orInto_eq (by simpa using hj),
        List.getElem_set_self, List.set_set, if_pos (by omega), ← hbyte,
        fieldByte_spill hcase.2 (Nat.mod_lt _ (by decide)), hposition]
    next hcase =>
      by_cases hend' : j + 1 = outSize
      · -- there is no next byte: the field ends on a byte boundary
        have haligned : offset % 8 = 0 := by omega
        rw [if_pos hend', ← hposition j, haligned, fieldByte_aligned hindex, ← haligned, hbyte]
        rfl
      · rw [if_neg hend']
        rfl
  rw [hlast, ok_bind]
  have hother : ∀ k, k ≠ j → k + 1 ≠ j →
      filledByte input offset outSize (j + 1) k = filledByte input offset outSize j k := by
    intro k hk hk'
    unfold filledByte
    split_ifs <;> first | rfl | omega
  by_cases hzero : j = 0
  · rw [if_neg (by omega), pure_eq_ok]
    apply List.ext_getElem (by simp)
    intro k hk hk'
    rw [List.getElem_set, getElem_filled, getElem_filled]
    split
    next heq => rw [heq]
    next hne => exact (hother k (by omega) (by omega)).symm
  · -- the byte before it gets its last bits
    obtain ⟨i, rfl⟩ := Nat.exists_eq_succ_of_ne_zero hzero
    have hprevious : filledByte input offset outSize (i + 1) i =
        UInt8.ofNat (input[offset / 8 + i].toNat <<< (offset % 8)) := by
      unfold filledByte
      rw [if_neg (by omega), if_pos rfl, List.getD_eq_getElem _ _ (by omega)]
    have hfull : filledByte input offset outSize (i + 1 + 1) i = fieldByte input (offset + 8 * i) := by
      unfold filledByte
      rw [if_pos (by omega)]
    rw [if_pos (by omega), Nat.succ_sub_one, orInto_eq (by simp; omega),
      List.getElem_set_ne (by omega), getElem_filled, hprevious]
    have hspill := @fieldByte_spill input (offset % 8) (offset / 8 + i) hindex
      (Nat.mod_lt _ (by decide))
    rw [hposition] at hspill
    simp only [Nat.succ_eq_add_one, ← Nat.add_assoc] at hspill ⊢
    rw [hspill, ← hfull]
    congr 1
    apply List.ext_getElem (by simp)
    intro k hk hk'
    rw [List.getElem_set, List.getElem_set, getElem_filled, getElem_filled]
    split
    next heq => rw [heq]
    next hne =>
      split
      next heq => rw [heq]
      next hne' => exact (hother k (by omega) (by omega)).symm

/-- A field that lies in the input is read exactly. -/
theorem deserializeArray_eq {outSize : Nat} (hinput : input.length ≤ 128)
    (hend : offset + 8 * outSize ≤ 8 * input.length) :
    deserializeArray input (input.length % 256) offset outSize =
      .ok (Bits.pack (Bits.window (Bits.ofBytes input) offset (8 * outSize))) := by
  have hzero : filled input offset outSize 0 = List.replicate outSize 0 := by
    apply List.ext_getElem (by simp)
    intro k hk hk'
    rw [getElem_filled, List.getElem_replicate, filledByte, if_neg (by omega), if_neg (by omega)]
  have hcount : filled input offset outSize outSize =
      Bits.pack (Bits.window (Bits.ofBytes input) offset (8 * outSize)) := by
    rw [pack_window (by rwa [Bits.length_ofBytes])]
    apply List.map_congr_left
    intro k hk
    rw [List.mem_range] at hk
    rw [filledByte, if_pos (by omega), fieldByte]
  unfold deserializeArray
  rw [← hzero, ← hcount]
  exact foldlM_range_eq_ok fun j hj => filled_step hinput hend hj

end

section

variable {slice : SliceData} {wc : UInt8} {address : List UInt8}

theorem deserializeValue_eq (h : Sound slice) {length : Nat}
    (hend : slice.dataWindowStart + 8 * length ≤ slice.dataWindowEnd) :
    deserializeValue slice length =
      .ok (movedTo slice (slice.dataWindowStart + 8 * length),
        Bits.pack (bitsAt slice slice.dataWindowStart (8 * length))) := by
  have hwindow := h.window
  unfold deserializeValue SliceData.getCursor
  rw [h.size, deserializeArray_eq h.length (by omega), ok_bind, Nat.mul_comm length,
    moveBy_eq hend]
  rfl

/-- Without an address only the two tag bits are read. -/
theorem deserializeAddress_none (h : Sound slice)
    (hend : slice.dataWindowStart + 2 ≤ slice.dataWindowEnd)
    (htag : bitsAt slice slice.dataWindowStart 2 = [false, false]) :
    deserializeAddress slice wc address =
      .ok (movedTo slice (slice.dataWindowStart + 2), wc, address) := by
  unfold deserializeAddress
  rw [getNextInt_eq h (by decide) hend, htag]
  rfl

/-- Tag, anycast bit, workchain and account. -/
theorem deserializeAddress_std (h : Sound slice)
    (hend : slice.dataWindowStart + 267 ≤ slice.dataWindowEnd)
    (htag : bitsAt slice slice.dataWindowStart 2 = [true, false]) :
    deserializeAddress slice wc address =
      .ok (movedTo slice (slice.dataWindowStart + 267),
        Bits.toByte (bitsAt slice (slice.dataWindowStart + 3) 8),
        Bits.pack (bitsAt slice (slice.dataWindowStart + 11) 256)) := by
  have hwindow := h.window
  generalize hstart : slice.dataWindowStart = start at *
  have hsize : slice.dataSizeBytes = slice.data.length := h.size
  have harray : deserializeArray slice.data (slice.dataSizeBytes % 256) (start + 2 + 1 + 8)
      addressLength = .ok (Bits.pack (bitsAt slice (start + 11) 256)) := by
    rw [hsize]
    exact deserializeArray_eq h.length (by simp only [addressLength]; omega)
  unfold deserializeAddress
  rw [getNextInt_eq h (by decide) (by omega), hstart, htag, ok_bind]
  simp only [show Bits.number [true, false] = 2 from rfl]
  rw [validate_of_true (Or.inr trivial), ok_bind, if_pos trivial,
    getNextBit_eq (h.moved _) (by rw [movedTo_start, movedTo_end]; omega), ok_bind]
  simp only [movedTo_movedTo, movedTo_start]
  rw [getNextByte_eq (h.moved _) (by rw [movedTo_start, movedTo_end]; omega), ok_bind]
  simp only [movedTo_movedTo, movedTo_start, bitsAt_movedTo, SliceData.getCursor]
  have hdata : (movedTo slice (start + 2 + 1 + 8)).data = slice.data := rfl
  have hbytes : (movedTo slice (start + 2 + 1 + 8)).dataSizeBytes = slice.dataSizeBytes := rfl
  rw [hdata, hbytes, harray, ok_bind,
    moveBy_eq (by rw [movedTo_start, movedTo_end]; simp only [addressLength]; omega), ok_bind]
  rfl

end

end EverscaleLedger.Properties
