import EverscaleLedger.Properties.BitReaders
import EverscaleLedger.Source.SliceInPlace

/-! What the bit and integer readers of `slice_data.c` return, for every slice: which
small reads bring bits along that were not asked for, and why integers do not. -/
namespace EverscaleLedger.Properties

open Library Library.InPlace Source Slice

/-- The value of the bits that were asked for, and of nothing else. -/
def ReturnsBits (slice : SliceData) (offset bits : Nat) : Prop :=
  ∃ value, slice.getBits offset bits = .ok value ∧
    value = Bits.number (bitsAt slice (slice.dataWindowStart + offset) bits) ∧ value < 2 ^ bits

/-- Nothing is set in the rest of a byte that is put together from two. -/
def NothingInFront (slice : SliceData) (position bits : Nat) : Prop :=
  8 < position % 8 + bits →
    bitsAt slice (position - (8 - bits)) (8 - bits) = List.replicate (8 - bits) false

/-- The byte index reaches the bits, or finds the same ones. -/
def SameWhereReached (slice : SliceData) (position bits : Nat) : Prop :=
  bitsAt slice (reachedPosition position) bits = bitsAt slice position bits

/-- A small read is exact unless it crosses into the next byte with something set in
the bits in front of it. -/
theorem getBits_exact_iff {slice : SliceData} {offset bits : Nat} (h : Framed slice)
    (hpos : 1 ≤ bits) (hbits : bits ≤ 8) (hfits : offset + bits ≤ slice.remainingBits) :
    ReturnsBits slice offset bits ↔
      SameWhereReached slice (slice.dataWindowStart + offset) bits ∧
        NothingInFront slice (reachedPosition (slice.dataWindowStart + offset)) bits := by
  have hwindow := h.window
  have hread := getBits_returned h hpos hbits hfits
  have hend : slice.dataWindowStart + offset + bits ≤ 8 * slice.data.length := by
    unfold SliceData.remainingBits at hfits
    omega
  have hreached : reachedPosition (slice.dataWindowStart + offset) + bits ≤ 8 * slice.data.length :=
    Nat.le_trans (Nat.add_le_add_right (Nat.mod_le _ _) bits) hend
  unfold ReturnsBits SameWhereReached NothingInFront
  rw [hread]
  generalize slice.dataWindowStart + offset = index at hend hreached ⊢
  have hlength : (bitsAt slice index bits).length = bits := Bits.length_window (by simpa using hend)
  have hlength' : (bitsAt slice (reachedPosition index) bits).length = bits :=
    Bits.length_window (by simpa using hreached)
  have hlt := Bits.number_lt (bitsAt slice index bits)
  have hlt' := Bits.number_lt (bitsAt slice (reachedPosition index) bits)
  rw [hlength] at hlt
  rw [hlength'] at hlt'
  simp only [Except.ok.injEq, exists_eq_left']
  by_cases hone : reachedPosition index % 8 + bits ≤ 8
  · rw [returnedBits, if_pos hone]
    constructor
    · rintro ⟨hvalue, -⟩
      exact ⟨Bits.number_inj (hlength'.trans hlength.symm) hvalue, fun hcross => absurd hone (by omega)⟩
    · rintro ⟨hsame, -⟩
      rw [hsame]
      exact ⟨rfl, hlt⟩
  · rw [number_returnedBits hbits hreached (by omega)]
    constructor
    · rintro ⟨hvalue, hsmall⟩
      have hfront : Bits.number (bitsAt slice (reachedPosition index - (8 - bits)) (8 - bits)) = 0 := by
        by_contra hne
        have hle : 1 * 2 ^ bits ≤ Bits.number
            (bitsAt slice (reachedPosition index - (8 - bits)) (8 - bits)) * 2 ^ bits :=
          Nat.mul_le_mul_right _ (Nat.pos_of_ne_zero hne)
        omega
      rw [hfront, Nat.zero_mul, Nat.zero_add] at hvalue
      refine ⟨Bits.number_inj (hlength'.trans hlength.symm) hvalue, fun _ => ?_⟩
      have hfrontLength : (bitsAt slice (reachedPosition index - (8 - bits)) (8 - bits)).length =
          8 - bits := Bits.length_window (by rw [Bits.length_ofBytes]; omega)
      apply Bits.number_inj
      · rw [hfrontLength, List.length_replicate]
      · rw [hfront, Bits.number_replicate_false]
    · rintro ⟨hsame, hfront⟩
      rw [hfront (by omega), Bits.number_replicate_false, Nat.zero_mul, Nat.zero_add, hsame]
      exact ⟨rfl, hlt⟩

/-- Two bits over a byte boundary, with nothing in front of them. -/
theorem getBits_exact_zeros : ReturnsBits (SliceData.init [0x01, 0x80] 2) 7 2 :=
  (getBits_exact_iff ⟨by decide, by decide⟩ (by decide) (by decide) (by decide)).mpr
    ⟨rfl, fun _ => by decide⟩

/-- Two bits over a byte boundary come out as 255. -/
theorem getBits_not_exact : (SliceData.init [0xFF, 0xFF] 2).getBits 7 2 = .ok 255 ∧
    ¬ ∀ (slice : SliceData) (offset bits : Nat), Framed slice → 1 ≤ bits → bits ≤ 8 →
      offset + bits ≤ slice.remainingBits → ReturnsBits slice offset bits := by
  have hread : (SliceData.init [0xFF, 0xFF] 2).getBits 7 2 = .ok 255 := by decide
  refine ⟨hread, fun hall => ?_⟩
  obtain ⟨value, hvalue, -, hsmall⟩ := hall (SliceData.init [0xFF, 0xFF] 2) 7 2
    ⟨by decide, by decide⟩ (by decide) (by decide) (by decide)
  rw [hread] at hvalue
  cases hvalue
  exact absurd hsmall (by decide)

/-! Integers. -/

theorem moveByInPlace_eq {slice : SliceData} {offset stores : Nat} :
    SliceData.moveByInPlace offset ⟨slice, stores⟩ =
      if slice.dataWindowStart + offset ≤ slice.dataWindowEnd then
        .ok () ⟨movedTo slice (slice.dataWindowStart + offset), stores⟩
      else .error (.thrown .cellUnderflow) ⟨slice, stores⟩ := by
  unfold SliceData.moveByInPlace
  rw [get_bind, validate, require]
  split
  next => rfl
  next => rfl

theorem getInt_short {slice : SliceData} {bits : Nat} (h : slice.remainingBits < bits) :
    slice.getInt bits = .error (.thrown .cellUnderflow) := by
  unfold SliceData.getInt
  rw [validate, require, if_neg (Nat.not_le_of_lt h)]
  rfl

/-- An integer read returns the next bits as a number and moves the cursor over them;
when there are fewer it throws, and the slice is as it was. -/
theorem getNextInt_exact {slice : SliceData} (h : Sound slice) {bits : Nat} (hbits : bits ≤ 64)
    (stores : Nat) :
    SliceData.getNextIntInPlace bits ⟨slice, stores⟩ =
      if slice.dataWindowStart + bits ≤ slice.dataWindowEnd then
        .ok (Bits.number (bitsAt slice slice.dataWindowStart bits))
          ⟨movedTo slice (slice.dataWindowStart + bits), stores⟩
      else .error (.thrown .cellUnderflow) ⟨slice, stores⟩ := by
  have hmove := @moveByInPlace_eq slice bits stores
  unfold SliceData.getNextIntInPlace
  rw [get_bind]
  by_cases hend : slice.dataWindowStart + bits ≤ slice.dataWindowEnd
  · rw [if_pos hend] at hmove ⊢
    rw [getInt_eq h hbits hend, bind_ok (lift_ok _ _), bind_ok hmove]
    rfl
  · rw [if_neg hend] at hmove ⊢
    by_cases hshort : slice.remainingBits < bits
    · rw [getInt_short hshort]
      rfl
    · -- the cursor is behind the window, and no bits are asked for
      obtain rfl : bits = 0 := by
        unfold SliceData.remainingBits at hshort
        omega
      have hzero : slice.getInt 0 = .ok 0 := rfl
      rw [hzero, bind_ok (lift_ok _ _), bind_apply, hmove]

/-- Eleven bits from the fourth one on, over a byte boundary. -/
theorem getNextInt_exact_eleven :
    SliceData.getNextIntInPlace 11 ⟨movedTo (SliceData.init [0xAB, 0xCD] 2) 3, 0⟩ =
      .ok 0x2F3 ⟨movedTo (SliceData.init [0xAB, 0xCD] 2) 14, 0⟩ :=
  @getNextInt_exact (movedTo (SliceData.init [0xAB, 0xCD] 2) 3)
    ⟨by decide, by decide, by decide⟩ 11 (by decide) 0

end EverscaleLedger.Properties
