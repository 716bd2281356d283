import EverscaleLedger.Properties.InBounds

/-! The two ways in which the code reads bytes at a bit cursor: `deserialize_value`, which
merges neighbouring bytes in place, and `SliceData_get_next_byte`, one after the other. -/
namespace EverscaleLedger.Properties

open Library Source Slice

/-- Successive calls of `SliceData_get_next_byte`. -/
def nextBytes : (count : Nat) → SliceData → Outcome (SliceData × List UInt8)
  | 0, slice => pure (slice, [])
  | count + 1, slice => do
      let (byte, slice) ← slice.getNextByte
      let (slice, rest) ← nextBytes count slice
      pure (slice, UInt8.ofNat byte :: rest)

/-- Both calls return the same bytes and leave the same cursor, or both throw. -/
def SameReading (x y : Outcome (SliceData × List UInt8)) : Prop :=
  (∃ result, x = .ok result ∧ y = .ok result) ∨
    ∃ first second, x = .error (.thrown first) ∧ y = .error (.thrown second)

section

variable {slice : SliceData}

theorem getNextByte_short (h : slice.dataWindowEnd < slice.dataWindowStart + 8) :
    slice.getNextByte = .error (.thrown .cellUnderflow) := by
  have hshort : ¬ 0 + 8 ≤ slice.remainingBits := by
    unfold SliceData.remainingBits
    omega
  unfold SliceData.getNextByte SliceData.getByte SliceData.getBits
  rw [validate, require, if_neg hshort]
  rfl

theorem nextBytes_eq (h : Sound slice) {count : Nat}
    (hend : slice.dataWindowStart + 8 * count ≤ slice.dataWindowEnd) :
    nextBytes count slice = .ok (movedTo slice (slice.dataWindowStart + 8 * count),
      Bits.pack (bitsAt slice slice.dataWindowStart (8 * count))) := by
  induction count generalizing slice with
  | zero => simp [nextBytes, Bits.pack, bitsAt, Bits.window, pure, Except.pure]
  | succ count ih =>
    have hfirst : slice.dataWindowStart + 8 ≤ slice.dataWindowEnd := by omega
    have hrest := @ih (movedTo slice (slice.dataWindowStart + 8)) (h.moved _)
      (by rw [movedTo_start, movedTo_end]; omega)
    have hlength := h.length_bitsAt hfirst
    have hpack : Bits.pack (bitsAt slice slice.dataWindowStart (8 * (count + 1))) =
        Bits.toByte (bitsAt slice slice.dataWindowStart 8) ::
          Bits.pack (bitsAt slice (slice.dataWindowStart + 8) (8 * count)) := by
      rw [Nat.mul_succ, Nat.add_comm (8 * count), bitsAt_add,
        Bits.pack_of_le (by rw [List.length_append]; omega), List.take_left' hlength,
        List.drop_left' hlength]
    rw [movedTo_movedTo, movedTo_start, bitsAt_movedTo,
      show slice.dataWindowStart + 8 + 8 * count = slice.dataWindowStart + 8 * (count + 1) by
        omega] at hrest
    rw [nextBytes, getNextByte_eq h hfirst, ok_bind]
    simp only [hrest, ok_bind]
    rw [hpack]
    rfl

theorem nextBytes_short {count : Nat} (hcursor : slice.dataWindowStart ≤ slice.dataWindowEnd)
    (h : Sound slice) (hshort : slice.dataWindowEnd < slice.dataWindowStart + 8 * count) :
    nextBytes count slice = .error (.thrown .cellUnderflow) := by
  induction count generalizing slice with
  | zero => exact absurd hcursor (Nat.not_le_of_lt hshort)
  | succ count ih =>
    rw [nextBytes]
    by_cases hfirst : slice.dataWindowStart + 8 ≤ slice.dataWindowEnd
    · have hrest := @ih (movedTo slice (slice.dataWindowStart + 8))
        (by rwa [movedTo_start, movedTo_end]) (h.moved _)
        (by rw [movedTo_start, movedTo_end]; omega)
      rw [getNextByte_eq h hfirst, ok_bind]
      simp only [hrest]
      rfl
    · rw [getNextByte_short (Nat.lt_of_not_le hfirst)]
      rfl

/-- What `deserialize_array` lets pass at the end of the bytes, the cursor does not. -/
theorem deserializeValue_throws (h : Sound slice) {length : Nat}
    (hshort : slice.dataWindowEnd < slice.dataWindowStart + 8 * length) :
    ∃ error, deserializeValue slice length = .error (.thrown error) := by
  have hinside := deserializeValue_inBounds h length
  cases hresult : deserializeValue slice length with
  | ok result =>
    simp only [deserializeValue, bind_eq_ok] at hresult
    obtain ⟨_, -, next, hmove, -⟩ := hresult
    have hle := (moveBy_ok hmove).2
    omega
  | error e =>
    cases e with
    | thrown error => exact ⟨error, rfl⟩
    | fault => exact absurd hresult hinside.1

end

/-- At every cursor of the slice of a cell both readers give the same bytes and end at
the same cursor, and where one of them throws the other does. -/
theorem byte_readers_agree {cell : Cell} {c : RawCell} {rest : List UInt8}
    (hcell : Holds cell c rest) {start slice : SliceData}
    (hstart : SliceData.fromCell cell = .ok start) {cursor : Nat}
    (hcursor : start.moveBy cursor = .ok slice) (length : Nat) :
    SameReading (deserializeValue slice length) (nextBytes length slice) := by
  obtain rfl := Except.ok.inj (hcell.fromCell.symm.trans hstart)
  obtain ⟨rfl, hwindow⟩ := moveBy_ok hcursor
  have hsound := c.slice_sound.moved (c.slice.dataWindowStart + cursor)
  by_cases hend : c.slice.dataWindowStart + cursor + 8 * length ≤ c.slice.dataWindowEnd
  · exact Or.inl ⟨_, deserializeValue_eq hsound hend, nextBytes_eq hsound hend⟩
  · have hshort := Nat.lt_of_not_le hend
    obtain ⟨error, herror⟩ := deserializeValue_throws hsound hshort
    exact Or.inr ⟨error, .cellUnderflow, herror, nextBytes_short hwindow hsound hshort⟩

def threeBytes : RawCell where
  d1 := 0x00
  d2 := 0x06
  data := [0xAB, 0xCD, 0xEF]
  refs := []
  data_length := by decide
  refs_length := no_refs

/-- Two bytes from the fourth bit on; a third one is not there. -/
theorem byte_readers_agree_threeBytes :
    SameReading (deserializeValue (movedTo threeBytes.slice 3) 2)
        (nextBytes 2 (movedTo threeBytes.slice 3)) ∧
      SameReading (deserializeValue (movedTo threeBytes.slice 3) 3)
        (nextBytes 3 (movedTo threeBytes.slice 3)) :=
  have hcell : Holds (Cell.init threeBytes.bytes 5) threeBytes [] :=
    ⟨congrArg some (List.append_nil _).symm, by decide⟩
  ⟨@byte_readers_agree _ _ _ hcell _ _ hcell.fromCell 3 rfl 2,
    @byte_readers_agree _ _ _ hcell _ _ hcell.fromCell 3 rfl 3⟩

end EverscaleLedger.Properties
