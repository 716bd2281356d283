import EverscaleLedger.Properties.CellTree
import EverscaleLedger.Properties.InBounds
import EverscaleLedger.Properties.UnreadBits
import EverscaleLedger.Source.HashmapLabel

/-! The walk of `put_to_node` through a dictionary, for every table of cells: what the
labels and branches on its way to a leaf are, against the key that it looks for. -/
namespace EverscaleLedger.Properties

open Library Source Slice

/-! The two slices of the walk: what is left of the key, and a label. -/

/-- The key of 64 zeros, with so many bits left. -/
def zeroKey (left : Nat) : SliceData := ⟨List.replicate 8 0, 64 - left, 64, 8⟩

def bitByte (bit : Bool) : UInt8 := if bit then 0xff else 0

def bytesFor (length : Nat) : Nat := length / 8 + if length % 8 ≠ 0 then 1 else 0

/-- A label of equal bits, as it is put into its buffer. -/
def labelOf (bit : Bool) (length : Nat) : SliceData where
  data := List.replicate (bytesFor length) (bitByte bit) ++ List.replicate (8 - bytesFor length) 0
  dataWindowStart := 0
  dataWindowEnd := length
  dataSizeBytes := 8

/-- The label is all that is left of the key. -/
def Completes (left : Nat) (bit : Bool) (length : Nat) : Prop :=
  length = left ∧ (bit = false ∨ length = 0)

instance (left : Nat) (bit : Bool) (length : Nat) : Decidable (Completes left bit length) :=
  inferInstanceAs (Decidable (_ ∧ _))

theorem ofBytes_bitByte (bit : Bool) (count : Nat) :
    Bits.ofBytes (List.replicate count (bitByte bit)) = List.replicate (8 * count) bit := by
  have hbyte : Bits.ofByte (bitByte bit) = List.replicate 8 bit := by
    cases bit <;> decide
  induction count with
  | zero => rfl
  | succ count ih =>
    rw [List.replicate_succ, Bits.ofBytes_cons, ih, hbyte, List.replicate_append_replicate,
      Nat.mul_succ, Nat.add_comm]

theorem number_replicate_eq_zero_iff (bit : Bool) (count : Nat) :
    Bits.number (List.replicate count bit) = 0 ↔ bit = false ∨ count = 0 := by
  have hzero := Bits.number_replicate_false count
  constructor
  · intro hnumber
    have hlength : (List.replicate count bit).length = (List.replicate count false).length := by
      simp
    have hsame := Bits.number_inj hlength (hnumber.trans hzero.symm)
    cases count with
    | zero => exact Or.inr rfl
    | succ count =>
      rw [List.replicate_succ, List.replicate_succ, List.cons.injEq] at hsame
      exact Or.inl hsame.1
  · rintro (rfl | rfl)
    · exact hzero
    · rfl

section

variable {bit : Bool} {length left : Nat}

theorem bytesFor_le (h : length ≤ 64) : bytesFor length ≤ 8 := by
  unfold bytesFor
  split <;> omega

theorem length_le_bytesFor (length : Nat) : length ≤ 8 * bytesFor length := by
  unfold bytesFor
  split <;> omega

theorem zeroKey_sound (left : Nat) : Sound (zeroKey left) where
  size := rfl
  length := by
    rw [zeroKey, List.length_replicate]
    decide
  window := by
    rw [zeroKey, List.length_replicate]

theorem labelOf_sound (h : length ≤ 64) : Sound (labelOf bit length) := by
  have hbytes := bytesFor_le h
  have hdata : (labelOf bit length).data.length = 8 := by
    simp only [labelOf, List.length_append, List.length_replicate]
    omega
  exact ⟨hdata.symm, by rw [hdata]; decide, by rw [hdata]; exact h⟩

theorem bitsAt_zeroKey {position count : Nat} (h : position + count ≤ 64) :
    bitsAt (zeroKey left) position count = List.replicate count false := by
  rw [bitsAt, Bits.window, zeroKey, show (0 : UInt8) = bitByte false from rfl, ofBytes_bitByte,
    List.drop_replicate, List.take_replicate]
  congr 1
  omega

theorem bitsAt_labelOf {position count : Nat} (h : position + count ≤ length) :
    bitsAt (labelOf bit length) position count = List.replicate count bit := by
  have hbytes := length_le_bytesFor length
  rw [bitsAt, Bits.window, labelOf, Bits.ofBytes_append, ofBytes_bitByte, List.drop_append_of_le_length
    (by rw [List.length_replicate]; omega), List.take_append_of_le_length
    (by rw [List.length_drop, List.length_replicate]; omega), List.drop_replicate,
    List.take_replicate]
  congr 1
  omega

theorem remainingBits_zeroKey (h : left ≤ 64) : (zeroKey left).remainingBits = left := by
  exact Nat.sub_sub_self h

theorem remainingBits_labelOf (bit : Bool) (length : Nat) :
    (labelOf bit length).remainingBits = length := rfl

theorem labelOf_equal (hleft : left ≤ 64) (hlength : length ≤ 64) :
    (labelOf bit length).equal (zeroKey left) = .ok (decide (Completes left bit length)) := by
  unfold SliceData.equal
  rw [remainingBits_zeroKey hleft, remainingBits_labelOf]
  by_cases hsame : length = left
  · subst hsame
    have hkey := getInt_eq (zeroKey_sound length) hleft
      (show 64 - length + length ≤ 64 by omega)
    have hlabel := getInt_eq (@labelOf_sound bit length hlength) hlength
      (show 0 + length ≤ length by omega)
    rw [show (zeroKey length).dataWindowStart = 64 - length from rfl,
      bitsAt_zeroKey (by omega), Bits.number_replicate_false] at hkey
    rw [show (labelOf bit length).dataWindowStart = 0 from rfl, bitsAt_labelOf (by omega)] at hlabel
    rw [if_neg (not_not.mpr rfl), Nat.mod_eq_of_lt (by omega), hlabel, hkey, ok_bind, ok_bind]
    have hiff := number_replicate_eq_zero_iff bit length
    have hcompletes : Completes length bit length ↔ Bits.number (List.replicate length bit) = 0 :=
      ⟨fun h => hiff.mpr h.2, fun h => ⟨rfl, hiff.mp h⟩⟩
    by_cases hzero : Bits.number (List.replicate length bit) = 0
    · rw [decide_eq_true (hcompletes.mpr hzero), hzero]
      rfl
    · rw [decide_eq_false (fun h => hzero (hcompletes.mp h)), beq_false_of_ne hzero]
      rfl
  · rw [if_pos hsame, decide_eq_false fun hboth => hsame hboth.1]
    rfl

theorem zeroKey_moveBy {count : Nat} (hleft : left ≤ 64) (hcount : count ≤ left) :
    (zeroKey left).moveBy count = .ok (zeroKey (left - count)) := by
  have hstart : 64 - left + count = 64 - (left - count) := by omega
  rw [moveBy_eq (show 64 - left + count ≤ 64 by omega),
    show (zeroKey left).dataWindowStart + count = 64 - left + count from rfl, hstart]
  rfl

theorem zeroKey_getNextBit (hleft : left ≤ 64) (hpos : 1 ≤ left) :
    (zeroKey left).getNextBit = .ok (0, zeroKey (left - 1)) := by
  have hmove := zeroKey_moveBy hleft hpos
  unfold SliceData.getNextBit
  rw [@getBit_eq (zeroKey left) 0 (zeroKey_sound left) (show 64 - left + 0 + 1 ≤ 64 by omega), ok_bind,
    hmove, ok_bind, show (zeroKey left).dataWindowStart + 0 = 64 - left from rfl,
    bitsAt_zeroKey (by omega)]
  rfl

/-- The common prefix with the key is the whole of a label of zeros, and nothing of a
label of ones. -/
theorem commonPrefix_eq (hleft : left ≤ 64) (hlength : length ≤ 64) {count i : Nat}
    (hlabel : i + count ≤ length) (hkey : i + count ≤ left) :
    commonPrefix (labelOf bit length) (zeroKey left) count i =
      .ok (if bit then i else i + count) := by
  induction count generalizing i with
  | zero => cases bit <;> rfl
  | succ count ih =>
    have hone : (labelOf bit length).getBits i 1 = .ok bit.toNat := by
      rw [getBit_eq (labelOf_sound hlength) (show 0 + i + 1 ≤ length by omega),
        show (labelOf bit length).dataWindowStart + i = i from Nat.zero_add i,
        bitsAt_labelOf (by omega)]
      cases bit <;> rfl
    have hzero : (zeroKey left).getBits i 1 = .ok 0 := by
      rw [getBit_eq (zeroKey_sound left) (show 64 - left + i + 1 ≤ 64 by omega),
        show (zeroKey left).dataWindowStart + i = 64 - left + i from rfl,
        bitsAt_zeroKey (by omega)]
      rfl
    rw [commonPrefix, hone, ok_bind, hzero, ok_bind]
    cases bit with
    | true => rfl
    | false =>
      rw [if_pos (by rfl), ih (by omega) (by omega)]
      simp only [Bool.false_eq_true, if_false]
      congr 1
      omega

end

/-! Labels. -/

theorem width_eq : ∀ max ≤ 64, 16 - leadingZeros max = max.size := by
  decide +kernel

/-- The only form of a label that the walk accepts: one bit for all, and their number. -/
def sameLabel (max : Nat) : List Bool → Option (Bool × Nat)
  | true :: true :: bit :: rest =>
      if max.size ≤ rest.length ∧ Bits.number (rest.take max.size) ≤ 64 then
        some (bit, Bits.number (rest.take max.size))
      else none
  | _ => none

theorem sameLabel_eq_some {max length : Nat} {bits : List Bool} {bit : Bool}
    (h : sameLabel max bits = some (bit, length)) : ∃ rest, bits = true :: true :: bit :: rest ∧
      max.size ≤ rest.length ∧ length = Bits.number (rest.take max.size) ∧ length ≤ 64 := by
  unfold sameLabel at h
  split at h
  next bit' rest =>
    split at h
    next hboth =>
      simp only [Option.some.injEq, Prod.mk.injEq] at h
      obtain ⟨rfl, rfl⟩ := h
      exact ⟨rest, rfl, hboth.1, rfl, hboth.2⟩
    next => cases h
  next => cases h

/-- Such a label is one of the dictionary format. -/
theorem readLabel_of_sameLabel {max length : Nat} {bits : List Bool} {bit : Bool}
    (h : sameLabel max bits = some (bit, length)) :
    ∃ rest, readLabel max bits = some (List.replicate length bit, rest) ∧
      bits.length - rest.length = 3 + max.size := by
  obtain ⟨rest, rfl, hwidth, rfl, -⟩ := sameLabel_eq_some h
  refine ⟨rest.drop max.size, rfl, ?_⟩
  simp only [List.length_cons, List.length_drop]
  omega

section

variable {slice next : SliceData} {bits : List Bool} {value : Nat}

theorem Unread.of_getNextBit (h : Unread slice bits) (hread : slice.getNextBit = .ok (value, next)) :
    ∃ bit rest, bits = bit :: rest ∧ value = bit.toNat ∧ Unread next rest := by
  cases bits with
  | nil =>
    have hremaining := h.remainingBits
    simp only [SliceData.getNextBit, bind_eq_ok] at hread
    obtain ⟨_, hbit, _⟩ := hread
    simp only [SliceData.getBits, bind_eq_ok, validate_eq_ok, hremaining] at hbit
    obtain ⟨_, hle, _⟩ := hbit
    exact absurd hle (by decide)
  | cons bit rest =>
    obtain ⟨next', hnext', hrest⟩ := h.getNextBit
    rw [hnext', Except.ok.injEq, Prod.mk.injEq] at hread
    obtain ⟨rfl, rfl⟩ := hread
    exact ⟨bit, rest, rfl, rfl, hrest⟩

theorem Unread.of_getNextInt (h : Unread slice bits) {count : Nat} (hcount : count ≤ 64)
    (hread : slice.getNextInt count = .ok (value, next)) :
    count ≤ bits.length ∧ value = Bits.number (bits.take count) := by
  have hle : count ≤ bits.length := by
    by_contra hshort
    exact h.getNextInt_short (Nat.lt_of_not_le hshort) hread
  obtain ⟨field, rest, hbits, hlength⟩ : ∃ field rest, bits = field ++ rest ∧ field.length = count :=
    ⟨bits.take count, bits.drop count, (List.take_append_drop count bits).symm,
      List.length_take_of_le hle⟩
  subst hbits
  obtain ⟨next', hnext', -⟩ := h.getNextInt hlength hcount
  rw [hnext', Except.ok.injEq, Prod.mk.injEq] at hread
  exact ⟨hle, by rw [← hread.1, List.take_left' hlength]⟩

/-- A size takes as many bits as its bound has, also where that is none. -/
theorem Unread.getNextSize_eq (h : Unread slice bits) {max : Nat} (hmax : max ≤ 64) :
    slice.getNextSize max = slice.getNextInt max.size := by
  unfold SliceData.getNextSize
  split
  next hzero =>
    subst hzero
    have hwindow := h.window
    rw [show Nat.size 0 = 0 from Nat.size_zero, getNextInt_eq h.sound (by decide) (by omega)]
    rfl
  next => rw [width_eq max hmax]

end

def emptyLabel : SliceData := SliceData.init (List.replicate 8 0) 8

theorem fill_eq {length : Nat} (bit : Bool) (h : length ≤ 64) :
    emptyLabel.fill (bitByte bit) (bytesFor length) =
      .ok { labelOf bit length with dataWindowEnd := 64 } := by
  have hbytes := bytesFor_le h
  have hdrop : (List.replicate 8 (0 : UInt8)).drop (bytesFor length) =
      List.replicate (8 - bytesFor length) 0 := List.drop_replicate ..
  unfold SliceData.fill
  rw [validate_of_true (show emptyLabel.dataSizeBytes ≥ bytesFor length from hbytes), ok_bind]
  have hstore : storeMany emptyLabel.data 0 (List.replicate (bytesFor length) (bitByte bit)) =
      .ok (labelOf bit length).data := by
    rw [storeMany_eq_ok]
    refine ⟨?_, ?_⟩
    · rw [List.length_replicate, Nat.zero_add]
      exact hbytes
    · rw [List.length_replicate, Nat.zero_add, List.take_zero, List.nil_append]
      exact congrArg _ hdrop
  rw [hstore, ok_bind]
  rfl

theorem truncate_eq {length : Nat} (bit : Bool) (h : length ≤ 64) :
    ({ labelOf bit length with dataWindowEnd := 64 } : SliceData).truncate length =
      .ok (labelOf bit length) := by
  unfold SliceData.truncate
  rw [validate_of_true (show length ≤ 64 from h), ok_bind]
  rfl

/-- The labels that the walk can read from a cell. -/
theorem getLabel_ok_iff (c : RawCell) {max : Nat} (hmax : max ≤ 64) (label : SliceData) :
    (∃ next, getLabel max c.slice emptyLabel = .ok (next, label)) ↔
      ∃ bit length, sameLabel max (Bits.ofBytes c.data) = some (bit, length) ∧
        label = labelOf bit length := by
  have hslice := c.unread
  have hsize := fun s bits (h : Unread s bits) => h.getNextSize_eq hmax
  have hseven : max.size ≤ 7 := Nat.size_le.mpr (Nat.lt_of_le_of_lt hmax (by decide))
  have hwidth : max.size ≤ 64 := Nat.le_trans hseven (by decide)
  have hsmall : ∀ rest : List Bool,
      Bits.number (rest.take max.size) % 256 = Bits.number (rest.take max.size) := by
    intro rest
    apply Nat.mod_eq_of_lt
    apply Nat.lt_of_lt_of_le (Bits.number_lt _)
    apply Nat.le_trans (Nat.pow_le_pow_right (by decide) (List.length_take_le max.size rest))
    exact Nat.le_trans (Nat.pow_le_pow_right (by decide) hseven) (by decide)
  have hmod : max % 256 = max := Nat.mod_eq_of_lt (by omega)
  have hvalue : ∀ bit : Bool, (if bit.toNat ≠ 0 then (0xff : UInt8) else 0) = bitByte bit := by
    decide
  constructor
  · rintro ⟨next, hread⟩
    simp only [getLabel, getLabelSame, bind_eq_ok, validate_eq_ok, hmod, pure_eq_ok,
      Prod.mk.injEq] at hread
    obtain ⟨_, -, ⟨short, s1⟩, h1, _, rfl, ⟨long, s2⟩, h2, _, rfl, ⟨bit, s3⟩, h3, ⟨length, s4⟩, h4, _,
      hle, filled, hfill, truncated, htruncate, rfl, rfl⟩ := hread
    obtain ⟨first, rest, hbits, hfirst, hs1⟩ := hslice.of_getNextBit h1
    obtain ⟨second, rest, rfl, hsecond, hs2⟩ := hs1.of_getNextBit h2
    obtain ⟨value, rest, rfl, rfl, hs3⟩ := hs2.of_getNextBit h3
    rw [hsize _ _ hs3] at h4
    obtain ⟨hlong, rfl⟩ := hs3.of_getNextInt hwidth h4
    obtain rfl : first = true := Bool.toNat_eq_one.mp hfirst.symm
    obtain rfl : second = true := Bool.toNat_eq_one.mp hsecond.symm
    simp only [hsmall] at hle htruncate hfill
    refine ⟨value, Bits.number (rest.take max.size), ?_, ?_⟩
    · rw [hbits, sameLabel, if_pos ⟨hlong, hle⟩]
    · rw [hvalue, show _ + _ = bytesFor (Bits.number (rest.take max.size)) from rfl,
        fill_eq value hle, Except.ok.injEq] at hfill
      rw [← hfill, truncate_eq value hle, Except.ok.injEq] at htruncate
      exact htruncate.symm
  · rintro ⟨bit, length, hlabel, rfl⟩
    obtain ⟨rest, hbits, hlong, hlength, hle⟩ := sameLabel_eq_some hlabel
    rw [hbits] at hslice
    obtain ⟨s1, h1, hs1⟩ := hslice.getNextBit
    obtain ⟨s2, h2, hs2⟩ := hs1.getNextBit
    obtain ⟨s3, h3, hs3⟩ := hs2.getNextBit
    have hrest := hs3
    rw [← List.take_append_drop max.size rest] at hrest
    obtain ⟨s4, h4, -⟩ := hrest.getNextInt (List.length_take_of_le hlong) hwidth
    rw [← hsize _ _ hs3, ← hlength] at h4
    have hlength' : length % 256 = length := by rw [hlength, hsmall]
    have hempty : c.slice.isEmpty = false := by
      have hwindow := hslice.window
      rw [List.length_cons] at hwindow
      simp only [SliceData.isEmpty, decide_eq_false_iff_not]
      omega
    refine ⟨s4, ?_⟩
    simp only [getLabel, getLabelSame, hmod, hempty, h1, h2, h3, h4, hlength', hvalue, ok_bind,
      Bool.toNat_true, validate_of_true, hle]
    rw [show _ + _ = bytesFor length from rfl, fill_eq bit hle, ok_bind, truncate_eq bit hle]
    rfl

theorem getNextSize_inBounds {slice : SliceData} (h : Sound slice) (max : Nat) :
    Reads (slice.getNextSize max) := by
  unfold SliceData.getNextSize
  split
  · exact inBounds_ok h
  · exact getNextInt_inBounds h _

/-- No label leaves its buffer or the cell. -/
theorem getLabel_inBounds (c : RawCell) (max : Nat) :
    InBounds (fun _ => True) (getLabel max c.slice emptyLabel) := by
  unfold getLabel getLabelSame
  apply (validate_inBounds _ _).bind
  intro _ _
  apply (getNextBit_inBounds c.slice_sound).bind
  intro short h1
  apply (validate_inBounds _ _).bind
  intro _ _
  apply (getNextBit_inBounds h1).bind
  intro long h2
  apply (validate_inBounds _ _).bind
  intro _ _
  apply (getNextBit_inBounds h2).bind
  intro bit h3
  apply (getNextSize_inBounds h3 _).bind
  intro size _
  apply (validate_inBounds _ _).bind
  intro _ hle
  have hvalue : (if bit.1 ≠ 0 then (0xff : UInt8) else 0) = bitByte (bit.1 ≠ 0) := by
    simp [bitByte]
  simp only
  rw [hvalue, show _ + _ = bytesFor (size.1 % 256) from rfl, fill_eq _ hle, ok_bind,
    truncate_eq _ hle]
  exact inBounds_ok trivial

/-! One cell of the walk. -/

/-- A context with this table of cells: each slot has a cell, or nothing at all. -/
def HasTable (bc : BocContext) (table : Nat → Option RawCell) : Prop :=
  ∀ i < maxContractCellsCount, match table i with
    | some c => ∃ rest, Holds (bc.cells i) c rest
    | none => (bc.cells i).cellBegin = none

/-- The walk comes to a cell with so many bits of the key left, and reads its label. -/
structure LabelAt (table : Nat → Option RawCell) (i left : Nat) (c : RawCell) (bit : Bool)
    (length : Nat) : Prop where
  pos : 0 < i
  lt : i < maxContractCellsCount
  cell : table i = some c
  label : sameLabel left (Bits.ofBytes c.data) = some (bit, length)

theorem LabelAt.length_le {table : Nat → Option RawCell} {i left length : Nat} {c : RawCell}
    {bit : Bool} (h : LabelAt table i left c bit length) : length ≤ 64 := by
  obtain ⟨_, _, _, _, hle⟩ := sameLabel_eq_some h.label
  exact hle

/-- What the walk passes over for a label: all of the zeros, none of the ones. -/
def passed (bit : Bool) (length : Nat) : Nat := if bit then 0 else length

/-- What is recorded at a leaf. -/
def recorded (bc : BocContext) (i left : Nat) : BocContext :=
  { bc with publicKeyLabelSizeBits := 3 + left.size, publicKeyCellIndex := i }

section

variable {bc : BocContext} {table : Nat → Option RawCell} {i left : Nat}

/-- The walk passes over the common prefix, and that is short of the key exactly when
what is to be passed is. -/
theorem exists_shared {bit : Bool} {length : Nat} (hleft : left ≤ 64) (hlength : length ≤ 64) :
    ∃ count, commonPrefix (labelOf bit length) (zeroKey left) (min length left) 0 = .ok count ∧
      count ≤ length ∧ count ≤ left ∧ if passed bit length < left then count = passed bit length
        else count = left := by
  refine ⟨_, commonPrefix_eq hleft hlength (by omega) (by omega), ?_⟩
  cases bit with
  | true =>
    refine ⟨Nat.zero_le _, Nat.zero_le _, ?_⟩
    split
    next => rfl
    next hzero => exact (Nat.eq_zero_of_not_pos hzero).symm
  | false =>
    simp only [passed, Bool.false_eq_true, reduceIte]
    split <;> omega

/-- What a call of `put_to_node` does once the label is there. -/
theorem putToNodeStep_eq {c : RawCell} {rest : List UInt8} {bit : Bool} {length : Nat}
    (hleft : left ≤ 64) (hat : LabelAt table i left c bit length)
    (hholds : Holds (bc.cells i) c rest) :
    putToNodeStep bc i left (zeroKey left) =
      if Completes left bit length then .ok (.found (recorded bc i left))
      else if passed bit length < left then do
        validate (c.refs.length > 0 ∧ c.refs.length ≤ maxReferencesCount) .invalidData
        let next ← load (c.refs ++ rest) 0
        validate (next.toNat ≠ 0 ∧ next.toNat ≤ maxContractCellsCount) .invalidData
        pure (.descend next.toNat (left - passed bit length - 1)
          (zeroKey (left - passed bit length - 1)))
      else .error (.thrown .cellUnderflow) := by
  have hlength := hat.length_le
  obtain ⟨next, hlabel⟩ := (getLabel_ok_iff c hleft (labelOf bit length)).mpr
    ⟨bit, length, hat.label, rfl⟩
  have hindex : i ≠ 0 ∧ i ≤ maxContractCellsCount :=
    ⟨Nat.ne_of_gt hat.pos, Nat.le_of_lt hat.lt⟩
  have hsize : (zeroKey left).dataSizeBytes = keyLenBytes := rfl
  have hkey : loadMany (zeroKey left).data keyLenBytes = .ok (List.replicate 8 0) := rfl
  have hzero : ∀ byte ∈ List.replicate 8 (0 : UInt8), byte = 0 := fun byte hbyte =>
    List.eq_of_mem_replicate hbyte
  have hinit : SliceData.init (c.data ++ (c.refs ++ rest)) c.data.length = c.slice := by
    have hdata := c.length_data_le
    unfold SliceData.init RawCell.slice
    rw [List.take_left, Nat.mod_eq_of_lt (by omega)]
  unfold putToNodeStep
  simp only [validate_of_true hindex, validate_of_true hsize, hkey, validate_of_true hzero, ok_bind,
    BocContext.slot_eq_ok.mpr ⟨hat.lt, rfl⟩, hholds.getData, hholds.getDataSize, hinit]
  rw [show SliceData.init (List.replicate 8 0) 8 = emptyLabel from rfl, hlabel, ok_bind]
  simp only [labelOf_equal hleft hlength, ok_bind, decide_eq_true_eq]
  by_cases hcompletes : Completes left bit length
  · rw [if_pos hcompletes, if_pos hcompletes, width_eq left hleft]
    rfl
  · obtain ⟨count, hprefix, hcount, hle, hpassed⟩ := @exists_shared left bit length hleft hlength
    have hmin : min length left ≤ 64 := Nat.le_trans (Nat.min_le_right _ _) hleft
    have htruncate : (labelOf bit length).truncate count =
        .ok { labelOf bit length with dataWindowEnd := count } := by
      unfold SliceData.truncate
      rw [validate_of_true (show count ≤ (labelOf bit length).dataWindowEnd from hcount), ok_bind]
      rfl
    have hremaining : SliceData.remainingBits { labelOf bit length with dataWindowEnd := count } =
        count := rfl
    rw [if_neg hcompletes, if_neg hcompletes, remainingBits_labelOf, remainingBits_zeroKey hleft,
      validate_of_true hmin, ok_bind, hprefix, ok_bind, zeroKey_moveBy hleft hle, ok_bind, htruncate,
      ok_bind]
    simp only [hremaining, validate_of_true (show left ≥ count from hle), ok_bind]
    by_cases hroom : passed bit length < left
    · rw [if_pos hroom] at hpassed
      subst hpassed
      rw [if_pos hroom, validate_of_true (show left - passed bit length ≥ 1 by omega), ok_bind,
        zeroKey_getNextBit (by omega) (by omega), ok_bind]
      simp only [validate_of_true, hholds.getRefs, ok_bind]
    · rw [if_neg hroom] at hpassed
      rw [if_neg hroom, validate, require, if_neg (by omega)]
      rfl

/-- Where a call of `put_to_node` leads. -/
inductive StepsTo (bc : BocContext) (table : Nat → Option RawCell) (i left : Nat) :
    NodeStep → Prop
  | found {c : RawCell} {bit : Bool} {length : Nat} (hat : LabelAt table i left c bit length)
      (hcompletes : Completes left bit length) : StepsTo bc table i left (.found (recorded bc i left))
  | descend {c : RawCell} {bit : Bool} {length : Nat} {next : UInt8} {refs : List UInt8}
      (hat : LabelAt table i left c bit length) (hcompletes : ¬ Completes left bit length)
      (hroom : passed bit length < left) (hrefs : c.refs = next :: refs)
      (hcount : c.refs.length ≤ maxReferencesCount)
      (hnext : next.toNat ≠ 0 ∧ next.toNat ≤ maxContractCellsCount) :
      StepsTo bc table i left (.descend next.toNat (left - passed bit length - 1)
        (zeroKey (left - passed bit length - 1)))

theorem exists_labelAt (hbc : HasTable bc table) (hleft : left ≤ 64) {step : NodeStep}
    (h : putToNodeStep bc i left (zeroKey left) = .ok step) :
    ∃ c bit length rest, LabelAt table i left c bit length ∧ Holds (bc.cells i) c rest := by
  simp only [putToNodeStep, bind_eq_ok, validate_eq_ok] at h
  obtain ⟨_, hindex, _, -, _, -, _, -, j, hslot, data, hdata, size, hsize, ⟨next, label⟩, hlabel, -⟩ := h
  obtain ⟨hlt, rfl⟩ := BocContext.slot_eq_ok.mp hslot
  have htable := hbc i hlt
  cases hcell : table i with
  | none =>
    rw [hcell] at htable
    simp only at htable
    simp only [Cell.getData, Cell.begin, htable] at hdata
    cases hdata
  | some c =>
    rw [hcell] at htable
    obtain ⟨rest, hholds⟩ := htable
    have hslice : SliceData.init data size = c.slice := by
      have hfrom := hholds.fromCell
      simp only [SliceData.fromCell, hdata, hsize, ok_bind] at hfrom
      exact Except.ok.inj hfrom
    rw [hslice] at hlabel
    obtain ⟨bit, length, hsame, -⟩ := (getLabel_ok_iff c hleft label).mp ⟨next, hlabel⟩
    exact ⟨c, bit, length, rest, ⟨Nat.pos_of_ne_zero hindex.1, hlt, hcell, hsame⟩, hholds⟩

theorem putToNodeStep_ok_iff (hbc : HasTable bc table) (hleft : left ≤ 64) {step : NodeStep} :
    putToNodeStep bc i left (zeroKey left) = .ok step ↔ StepsTo bc table i left step := by
  constructor
  · intro h
    obtain ⟨c, bit, length, rest, hat, hholds⟩ := exists_labelAt hbc hleft h
    rw [putToNodeStep_eq hleft hat hholds] at h
    split at h
    next hcompletes =>
      obtain rfl := Except.ok.inj h
      exact .found hat hcompletes
    next hcompletes =>
      split at h
      next hroom =>
        simp only [bind_eq_ok, validate_eq_ok, pure_eq_ok, load_eq_ok] at h
        obtain ⟨_, ⟨hpos, hcount⟩, next, hload, _, hnext, rfl⟩ := h
        cases hrefs : c.refs with
        | nil =>
          rw [hrefs, List.length_nil] at hpos
          exact absurd hpos (Nat.lt_irrefl 0)
        | cons first refs =>
          rw [hrefs, List.cons_append, List.getElem?_cons_zero, Option.some.injEq] at hload
          subst hload
          exact .descend hat hcompletes hroom hrefs hcount hnext
      next => cases h
  · intro h
    cases h with
    | found hat hcompletes =>
      have htable := hbc i hat.lt
      rw [hat.cell] at htable
      obtain ⟨rest, hholds⟩ := htable
      rw [putToNodeStep_eq hleft hat hholds, if_pos hcompletes]
    | @descend c bit length next refs hat hcompletes hroom hrefs hcount hnext =>
      have htable := hbc i hat.lt
      rw [hat.cell] at htable
      obtain ⟨rest, hholds⟩ := htable
      have hpos : 0 < c.refs.length := by
        rw [hrefs]
        exact Nat.succ_pos _
      rw [putToNodeStep_eq hleft hat hholds, if_neg hcompletes, if_pos hroom,
        validate_of_true ⟨hpos, hcount⟩, ok_bind, hrefs, List.cons_append,
        load_eq_ok.mpr (List.getElem?_cons_zero ..), ok_bind, validate_of_true hnext]
      rfl

/-- A call leaves the table of cells at the slot behind its end, which the check of the
index lets pass, and nowhere else. -/
theorem putToNodeStep_fault_iff (hbc : HasTable bc table) (hleft : left ≤ 64) :
    putToNodeStep bc i left (zeroKey left) = .error .fault ↔ i = maxContractCellsCount := by
  have hsize : (zeroKey left).dataSizeBytes = keyLenBytes := rfl
  have hkey : loadMany (zeroKey left).data keyLenBytes = .ok (List.replicate 8 0) := rfl
  have hzero : ∀ byte ∈ List.replicate 8 (0 : UInt8), byte = 0 := fun byte hbyte =>
    List.eq_of_mem_replicate hbyte
  constructor
  · intro hfault
    by_contra hne
    have hinside : InBounds (fun _ => True) (putToNodeStep bc i left (zeroKey left)) := by
      by_cases hat : ∃ c bit length, LabelAt table i left c bit length
      · obtain ⟨c, bit, length, hat⟩ := hat
        have htable := hbc i hat.lt
        rw [hat.cell] at htable
        obtain ⟨rest, hholds⟩ := htable
        rw [putToNodeStep_eq hleft hat hholds]
        apply inBounds_ite (inBounds_ok trivial)
        apply inBounds_ite _ (inBounds_thrown _)
        apply (validate_inBounds _ _).bind
        intro _ hcount
        apply (load_inBounds (by rw [List.length_append]; omega)).bind
        intro _ _
        exact (validate_inBounds _ _).bind fun _ _ => inBounds_ok trivial
      · unfold putToNodeStep
        apply (validate_inBounds _ _).bind
        intro _ hindex
        have hlt : i < maxContractCellsCount := Nat.lt_of_le_of_ne hindex.2 hne
        have htable := hbc i hlt
        simp only [validate_of_true hsize, hkey, validate_of_true hzero, ok_bind,
          BocContext.slot_eq_ok.mpr ⟨hlt, rfl⟩]
        cases hcell : table i with
        | none =>
          rw [hcell] at htable
          simp only at htable
          simp only [Cell.getData, Cell.begin, htable]
          exact inBounds_thrown _
        | some c =>
          rw [hcell] at htable
          obtain ⟨rest, hholds⟩ := htable
          have hslice : SliceData.init (c.data ++ (c.refs ++ rest)) c.data.length = c.slice := by
            have hfrom := hholds.fromCell
            simp only [SliceData.fromCell, hholds.getData, hholds.getDataSize, ok_bind] at hfrom
            exact Except.ok.inj hfrom
          simp only [hholds.getData, hholds.getDataSize, ok_bind, hslice]
          apply (Confined.self (getLabel_inBounds c left).1).bind
          rintro ⟨next, label⟩ hlabel
          -- the label would be one that the walk reads
          obtain ⟨bit, length, hsame, -⟩ := (getLabel_ok_iff c hleft label).mp ⟨next, hlabel⟩
          exact absurd ⟨c, bit, length, Nat.pos_of_ne_zero hindex.1, hlt, hcell, hsame⟩ hat
    exact hinside.1 hfault
  · rintro rfl
    have hindex : maxContractCellsCount ≠ 0 ∧ maxContractCellsCount ≤ maxContractCellsCount := by
      decide
    unfold putToNodeStep
    simp only [validate_of_true hindex, validate_of_true hsize, hkey, validate_of_true hzero, ok_bind]
    rfl

end

/-! The whole walk. -/

section

variable {bc : BocContext} {table : Nat → Option RawCell}

theorem StepsTo.shorter {i left next left' : Nat} {key : SliceData}
    (h : StepsTo bc table i left (.descend next left' key)) : left' < left ∧ key = zeroKey left' := by
  generalize hstep : NodeStep.descend next left' key = step at h
  cases h with
  | found => cases hstep
  | descend hat hcompletes hroom =>
    cases hstep
    exact ⟨by omega, rfl⟩

/-- A call for each bit of the key is enough, and one for the leaf. -/
theorem putToNodeFuel_enough (hbc : HasTable bc table) {fuel i left : Nat} (hleft : left ≤ 64)
    (hfuel : left < fuel) : putToNodeFuel fuel bc i left (zeroKey left) =
      putToNodeFuel (left + 1) bc i left (zeroKey left) := by
  induction left using Nat.strong_induction_on generalizing fuel i with
  | _ left ih =>
    obtain ⟨fuel, rfl⟩ := Nat.exists_eq_succ_of_ne_zero (show fuel ≠ 0 by omega)
    rw [Nat.succ_eq_add_one, putToNodeFuel, putToNodeFuel]
    cases hstep : putToNodeStep bc i left (zeroKey left) with
    | error e => rfl
    | ok step =>
      cases step with
      | found after => rfl
      | descend next left' key =>
        obtain ⟨hlt, rfl⟩ := ((putToNodeStep_ok_iff hbc hleft).mp hstep).shorter
        simp only [ok_bind]
        rw [ih left' hlt (by omega) (show left' < fuel by omega),
          ih left' hlt (by omega) (show left' < left from hlt)]

end

/-- The cells that the walk goes through: a leaf whose label is the rest of the key, or
the first child of a cell whose label is shorter. `strayed` tells whether one of the
labels before the leaf was a run of ones. -/
inductive Walks (table : Nat → Option RawCell) : (i left : Nat) → (strayed : Bool) → (leaf : Nat) →
    (size : Nat) → Prop
  | leaf {i left length : Nat} {c : RawCell} {bit : Bool} (hat : LabelAt table i left c bit length)
      (hcompletes : Completes left bit length) : Walks table i left false i (3 + left.size)
  | inner {i left length leaf size : Nat} {c : RawCell} {bit strayed : Bool} {next : UInt8}
      {refs : List UInt8} (hat : LabelAt table i left c bit length)
      (hcompletes : ¬ Completes left bit length) (hroom : passed bit length < left)
      (hrefs : c.refs = next :: refs) (hcount : c.refs.length ≤ maxReferencesCount)
      (hrest : Walks table next.toNat (left - passed bit length - 1) strayed leaf size) :
      Walks table i left (strayed || bit && decide (0 < length)) leaf size

theorem Walks.index {table : Nat → Option RawCell} {i left leaf size : Nat} {strayed : Bool}
    (h : Walks table i left strayed leaf size) : i ≠ 0 ∧ i < maxContractCellsCount := by
  cases h with
  | leaf hat => exact ⟨Nat.ne_of_gt hat.pos, hat.lt⟩
  | inner hat => exact ⟨Nat.ne_of_gt hat.pos, hat.lt⟩

section

variable {bc : BocContext} {table : Nat → Option RawCell}

/-- What is recorded comes from such a walk. -/
theorem putToNodeFuel_ok_iff (hbc : HasTable bc table) {fuel i left : Nat} (hleft : left ≤ 64)
    (hfuel : left < fuel) {after : BocContext} :
    putToNodeFuel fuel bc i left (zeroKey left) = .ok after ↔
      ∃ strayed leaf size, Walks table i left strayed leaf size ∧
        after = { bc with publicKeyLabelSizeBits := size, publicKeyCellIndex := leaf } := by
  induction fuel generalizing i left with
  | zero => exact absurd hfuel (Nat.not_lt_zero left)
  | succ fuel ih =>
    rw [putToNodeFuel, bind_eq_ok]
    constructor
    · rintro ⟨step, hstep, h⟩
      have hsteps := (putToNodeStep_ok_iff hbc hleft).mp hstep
      cases hsteps with
      | found hat hcompletes =>
        rw [pure_eq_ok] at h
        exact ⟨false, i, _, .leaf hat hcompletes, h.symm⟩
      | descend hat hcompletes hroom hrefs hcount hnext =>
        simp only at h
        obtain ⟨strayed, leaf, size, hrest, hafter⟩ := (ih (by omega) (by omega)).mp h
        exact ⟨_, leaf, size, .inner hat hcompletes hroom hrefs hcount hrest, hafter⟩
    · rintro ⟨strayed, leaf, size, hwalks, rfl⟩
      cases hwalks with
      | leaf hat hcompletes =>
        exact ⟨_, (putToNodeStep_ok_iff hbc hleft).mpr (.found hat hcompletes), rfl⟩
      | inner hat hcompletes hroom hrefs hcount hrest =>
        have hnext := hrest.index
        refine ⟨_, (putToNodeStep_ok_iff hbc hleft).mpr (.descend hat hcompletes hroom hrefs hcount
          ⟨hnext.1, Nat.le_of_lt hnext.2⟩), ?_⟩
        exact (ih (by omega) (by omega)).mpr ⟨_, leaf, size, hrest, rfl⟩

end

/-- The slots that the walk comes to: its own, and along first children those of the
cells that it goes on with. -/
inductive Visits (table : Nat → Option RawCell) (slot : Nat) : (i left : Nat) → Prop
  | here {left : Nat} : Visits table slot slot left
  | child {i left length : Nat} {c : RawCell} {bit : Bool} {next : UInt8} {refs : List UInt8}
      (hat : LabelAt table i left c bit length) (hcompletes : ¬ Completes left bit length)
      (hroom : passed bit length < left) (hrefs : c.refs = next :: refs)
      (hcount : c.refs.length ≤ maxReferencesCount)
      (hnext : next.toNat ≠ 0 ∧ next.toNat ≤ maxContractCellsCount)
      (hrest : Visits table slot next.toNat (left - passed bit length - 1)) :
      Visits table slot i left

theorem putToNodeFuel_fault_iff {bc : BocContext} {table : Nat → Option RawCell}
    (hbc : HasTable bc table) {fuel i left : Nat} (hleft : left ≤ 64) (hfuel : left < fuel) :
    putToNodeFuel fuel bc i left (zeroKey left) = .error .fault ↔
      Visits table maxContractCellsCount i left := by
  induction fuel generalizing i left with
  | zero => exact absurd hfuel (Nat.not_lt_zero left)
  | succ fuel ih =>
    rw [putToNodeFuel]
    constructor
    · intro hfault
      cases hstep : putToNodeStep bc i left (zeroKey left) with
      | error failure =>
        rw [hstep] at hfault
        obtain rfl := Except.error.inj hfault
        obtain rfl := (putToNodeStep_fault_iff hbc hleft).mp hstep
        exact .here
      | ok step =>
        rw [hstep, ok_bind] at hfault
        have hsteps := (putToNodeStep_ok_iff hbc hleft).mp hstep
        cases hsteps with
        | found => cases hfault
        | descend hat hcompletes hroom hrefs hcount hnext =>
          exact .child hat hcompletes hroom hrefs hcount hnext
            ((ih (by omega) (by omega)).mp hfault)
    · intro hvisits
      cases hvisits with
      | here => rw [(putToNodeStep_fault_iff hbc hleft).mpr rfl]; rfl
      | child hat hcompletes hroom hrefs hcount hnext hrest =>
        rw [(putToNodeStep_ok_iff hbc hleft).mpr (.descend hat hcompletes hroom hrefs hcount hnext),
          ok_bind]
        exact (ih (by omega) (by omega)).mpr hrest

/-! The dictionary. -/

/-- The labels and branch bits from a cell of a dictionary, whose keys have `max` bits
left, to one of the cells below it, and the bits of that cell's label encoding. -/
inductive Path (table : Nat → Option RawCell) : (i max : Nat) → (bits : List Bool) → (leaf : Nat) →
    (size : Nat) → Prop
  | stop {i max : Nat} {c : RawCell} {label behind : List Bool} (hcell : table i = some c)
      (hlabel : readLabel max (Bits.ofBytes c.data) = some (label, behind)) :
      Path table i max label i ((Bits.ofBytes c.data).length - behind.length)
  | branch {i max leaf size : Nat} {c : RawCell} {label behind bits : List Bool} {fork : Bool}
      {child : UInt8} (hcell : table i = some c)
      (hlabel : readLabel max (Bits.ofBytes c.data) = some (label, behind))
      (hchild : c.refs[fork.toNat]? = some child)
      (hrest : Path table child.toNat (max - label.length - 1) bits leaf size) :
      Path table i max (label ++ fork :: bits) leaf size

section

variable {table : Nat → Option RawCell} {i left leaf size : Nat}

/-- A walk that has not strayed is the path of the key. -/
theorem Walks.path {strayed : Bool} (h : Walks table i left strayed leaf size)
    (hstrayed : strayed = false) : Path table i left (List.replicate left false) leaf size := by
  induction h with
  | @leaf i left length c bit hat hcompletes =>
    obtain ⟨rest, hlabel, hsize⟩ := readLabel_of_sameLabel hat.label
    obtain ⟨rfl, hzeros⟩ := hcompletes
    have hsame : List.replicate length bit = List.replicate length false := by
      obtain rfl | rfl := hzeros
      · rfl
      · rfl
    rw [hsame] at hlabel
    rw [← hsize]
    exact .stop hat.cell hlabel
  | @inner i left length leaf size c bit strayed next refs hat hcompletes hroom hrefs hcount hrest ih =>
    obtain ⟨rest, hlabel, -⟩ := readLabel_of_sameLabel hat.label
    rw [Bool.or_eq_false_iff] at hstrayed
    obtain ⟨hlater, hzeros⟩ := hstrayed
    have hsame : List.replicate length bit = List.replicate length false ∧ passed bit length = length := by
      cases bit with
      | false => exact ⟨rfl, rfl⟩
      | true =>
        obtain rfl : length = 0 := by simpa using hzeros
        exact ⟨rfl, rfl⟩
    rw [hsame.2] at hroom ih
    rw [hsame.1] at hlabel
    have hbits : List.replicate left false =
        List.replicate length false ++ false :: List.replicate (left - length - 1) false := by
      rw [← List.replicate_succ, List.replicate_append_replicate]
      congr 1
      omega
    rw [hbits]
    refine .branch hat.cell hlabel (by rw [hrefs]; rfl) ?_
    rw [List.length_replicate]
    exact ih hlater

/-- On a walk that has strayed, no path has the bits of the key. -/
theorem Walks.not_path {strayed : Bool} (h : Walks table i left strayed leaf size)
    (hstrayed : strayed = true) (leaf' size' : Nat) :
    ¬ Path table i left (List.replicate left false) leaf' size' := by
  induction h with
  | leaf => cases hstrayed
  | @inner i left length leaf size c bit strayed next refs hat hcompletes hroom hrefs hcount hrest ih =>
    intro hpath
    obtain ⟨rest, hlabel, -⟩ := readLabel_of_sameLabel hat.label
    generalize hbits : List.replicate left false = bits at hpath
    cases hpath with
    | stop hcell hlabel' =>
      obtain rfl := Option.some.inj (hcell.symm.trans hat.cell)
      rw [hlabel, Option.some.injEq, Prod.mk.injEq] at hlabel'
      rw [← hlabel'.1, List.replicate_inj] at hbits
      obtain ⟨rfl, hzeros⟩ := hbits
      exact hcompletes ⟨rfl, hzeros.symm.imp Eq.symm id⟩
    | @branch _ _ _ _ c' label behind later fork child hcell hlabel' hchild hrest' =>
      obtain rfl := Option.some.inj (hcell.symm.trans hat.cell)
      rw [hlabel, Option.some.injEq, Prod.mk.injEq] at hlabel'
      rw [← hlabel'.1] at hbits hrest'
      -- Every bit of the path is a bit of the key, hence zero.
      have hzeros : ∀ b ∈ List.replicate length bit ++ fork :: later, b = false := by
        rw [← hbits]
        intro b hb
        exact List.eq_of_mem_replicate hb
      have hlater : later = List.replicate (left - length - 1) false := by
        have hlengths := congrArg List.length hbits
        simp only [List.length_replicate, List.length_append, List.length_cons] at hlengths
        rw [List.eq_replicate_iff]
        exact ⟨by omega, fun b hb => hzeros b (by simp [hb])⟩
      have hfork : fork = false := hzeros fork (by simp)
      have hnone : (bit && decide (0 < length)) = false := by
        cases bit with
        | false => rfl
        | true =>
          cases length with
          | zero => rfl
          | succ length => exact hzeros true (by simp)
      have hpassed : passed bit length = length := by
        cases bit with
        | false => rfl
        | true => exact (Nat.eq_zero_of_not_pos (of_decide_eq_false hnone)).symm
      have hnext : child = next := by
        rw [hrefs, hfork] at hchild
        exact (Option.some.inj hchild).symm
      rw [hnone, Bool.or_false] at hstrayed
      rw [hpassed] at ih
      rw [hlater, hnext, List.length_replicate] at hrest'
      exact ih hstrayed hrest'

end

/-- One call of `put_to_node` makes another. -/
def Calls (bc : BocContext) (after before : Nat × Nat × SliceData) : Prop :=
  putToNodeStep bc before.1 before.2.1 before.2.2 = .ok (.descend after.1 after.2.1 after.2.2)

/-- The key as `find_public_key_cell` makes it. -/
def searchedKey : SliceData := SliceData.init (List.replicate keyLenBytes 0) keyLenBytes

/-- The calls from a cell come to an end inside the table of cells, and a leaf that they
record is the one of the key, with the size of its label. -/
structure EndsAtKey (bc : BocContext) (table : Nat → Option RawCell) (start : Nat) : Prop where
  terminates : Acc (Calls bc) (start, 64, searchedKey)
  enough : ∀ fuel > 64, putToNodeFuel fuel bc start 64 searchedKey = putToNode bc start 64 searchedKey
  inside : putToNode bc start 64 searchedKey ≠ .error .fault
  path : ∀ after, putToNode bc start 64 searchedKey = .ok after → Path table start 64
    (List.replicate 64 false) after.publicKeyCellIndex after.publicKeyLabelSizeBits

/-- The walk from a cell passes a label of ones and still comes to a leaf. -/
def Strays (table : Nat → Option RawCell) (start : Nat) : Prop :=
  ∃ leaf size, Walks table start 64 true leaf size

/-- The walk from a cell comes to the slot behind the last one. -/
def Overruns (table : Nat → Option RawCell) (start : Nat) : Prop :=
  Visits table maxContractCellsCount start 64

section

variable {bc : BocContext} {table : Nat → Option RawCell} {start : Nat}

theorem Walks.not_strays {leaf size : Nat} (h : Walks table start 64 false leaf size) :
    ¬ Strays table start := by
  rintro ⟨leaf', size', hwalks⟩
  exact hwalks.not_path rfl leaf size (h.path rfl)

theorem Calls.acc (hbc : HasTable bc table) {i left : Nat} (hleft : left ≤ 64) :
    Acc (Calls bc) (i, left, zeroKey left) := by
  induction left using Nat.strong_induction_on generalizing i with
  | _ left ih =>
    constructor
    rintro ⟨next, left', key⟩ hcall
    obtain ⟨hlt, hkey⟩ := ((putToNodeStep_ok_iff hbc hleft).mp hcall).shorter
    simp only at hlt hkey
    rw [hkey]
    exact ih left' hlt (by omega)

theorem putToNode_ok_iff (hbc : HasTable bc table) {after : BocContext} :
    putToNode bc start 64 searchedKey = .ok after ↔ ∃ strayed leaf size,
      Walks table start 64 strayed leaf size ∧
        after = { bc with publicKeyLabelSizeBits := size, publicKeyCellIndex := leaf } :=
  putToNodeFuel_ok_iff hbc (Nat.le_refl 64) (Nat.lt_succ_self 64)

theorem Strays.not_endsAtKey (hbc : HasTable bc table) (h : Strays table start) :
    ¬ EndsAtKey bc table start := by
  intro hends
  obtain ⟨leaf, size, hwalks⟩ := h
  have hrecorded := (putToNode_ok_iff hbc).mpr ⟨true, leaf, size, hwalks, rfl⟩
  exact hwalks.not_path rfl leaf size (hends.path _ hrecorded)

theorem putToNode_fault_iff (hbc : HasTable bc table) :
    putToNode bc start 64 searchedKey = .error .fault ↔ Overruns table start :=
  putToNodeFuel_fault_iff hbc (Nat.le_refl 64) (Nat.lt_succ_self 64)

theorem endsAtKey_of_not_strays (hbc : HasTable bc table) (h : ¬ Strays table start)
    (hinside : ¬ Overruns table start) : EndsAtKey bc table start where
  terminates := Calls.acc hbc (Nat.le_refl 64)
  inside := fun hfault => hinside ((putToNode_fault_iff hbc).mp hfault)
  enough := fun fuel hfuel => putToNodeFuel_enough hbc (Nat.le_refl 64) hfuel
  path := by
    intro after hrecorded
    obtain ⟨strayed, leaf, size, hwalks, rfl⟩ := (putToNode_ok_iff hbc).mp hrecorded
    apply hwalks.path
    cases strayed with
    | false => rfl
    | true => exact absurd ⟨leaf, size, hwalks⟩ h

/-- The walk ends at the leaf of the key, unless it goes on along the first child of
a cell whose label is a run of ones, or comes to the slot behind the last one. -/
theorem dictionary_walk_iff (hbc : HasTable bc table) :
    EndsAtKey bc table start ↔ ¬ Strays table start ∧ ¬ Overruns table start := by
  constructor
  · intro h
    exact ⟨fun hstrays => hstrays.not_endsAtKey hbc h,
      fun hoverruns => h.inside ((putToNode_fault_iff hbc).mpr hoverruns)⟩
  · rintro ⟨hstrays, hinside⟩
    exact endsAtKey_of_not_strays hbc hstrays hinside

end

/-- A context whose cells lie one by one in memory. -/
def tableContext (table : Nat → Option RawCell) : BocContext :=
  { BocContext.zero with cells := fun i => ((table i).map cellPointer).getD Cell.null }

theorem hasTable_tableContext (table : Nat → Option RawCell) :
    HasTable (tableContext table) table := by
  intro i _
  simp only [tableContext]
  cases table i with
  | none => rfl
  | some c => exact ⟨[], holds_cellPointer c⟩

/-- A fork under a label of one bit. -/
def forkCell (bit : Bool) (child : UInt8) : RawCell :=
  ⟨1, 3, [if bit then 0xe0 else 0xc0, 0x60], [child], rfl, rfl⟩

/-- A leaf with a label of 62 or 63 zeros. -/
def leafCell (bit : Bool) : RawCell :=
  ⟨0, 3, [0xdf, if bit then 0xc0 else 0x40], [], rfl, rfl⟩

/-- A fork and its first child. The child's label is all that the walk has left of the
key: it passes one bit of the fork's label if that is a zero, and none if it is a one. -/
def forkTable (bit : Bool) : Nat → Option RawCell
  | 1 => some (forkCell bit 2)
  | 2 => some (leafCell bit)
  | _ => none

theorem forkTable_walks (bit : Bool) : Walks (forkTable bit) 1 64 bit 2 9 := by
  have hfork : LabelAt (forkTable bit) 1 64 (forkCell bit 2) bit 1 := by
    refine ⟨by decide, by decide, rfl, ?_⟩
    cases bit <;> decide +kernel
  have hleaf : LabelAt (forkTable bit) 2 (64 - passed bit 1 - 1) (leafCell bit) false
      (64 - passed bit 1 - 1) := by
    refine ⟨by decide, by decide, by cases bit <;> rfl, ?_⟩
    cases bit <;> decide +kernel
  have hwalks := Walks.inner hfork (by cases bit <;> decide) (by cases bit <;> decide) rfl
    (show 1 ≤ maxReferencesCount by decide) (.leaf hleaf ⟨rfl, Or.inl rfl⟩)
  have hsize : (64 - passed bit 1 - 1).size = 6 := by
    cases bit <;> decide +kernel
  rw [hsize] at hwalks
  rwa [Bool.false_or, show decide (0 < 1) = true from rfl, Bool.and_true] at hwalks

/-- A walk that comes to a leaf stays inside the table. -/
theorem Walks.not_overruns {table : Nat → Option RawCell} {start leaf size : Nat} {strayed : Bool}
    (h : Walks table start 64 strayed leaf size) : ¬ Overruns table start := by
  intro hoverruns
  have hrecorded := (putToNode_ok_iff (hasTable_tableContext table)).mpr ⟨strayed, leaf, size, h, rfl⟩
  have hfault := (putToNode_fault_iff (hasTable_tableContext table)).mpr hoverruns
  rw [hrecorded] at hfault
  cases hfault

theorem dictionary_walk_fork :
    EndsAtKey (tableContext (forkTable false)) (forkTable false) 1 :=
  (dictionary_walk_iff (hasTable_tableContext _)).mpr
    ⟨(forkTable_walks false).not_strays, (forkTable_walks false).not_overruns⟩

/-- A fork whose first child is the slot behind the last one. -/
def edgeTable : Nat → Option RawCell
  | 1 => some (forkCell false 16)
  | _ => none

/-- A fork whose label is a one, a start behind the last slot, and a reference to it. -/
theorem dictionary_walk_strays :
    (HasTable (tableContext (forkTable true)) (forkTable true) ∧
      ¬ EndsAtKey (tableContext (forkTable true)) (forkTable true) 1) ∧
    HasTable (tableContext edgeTable) edgeTable ∧
      ¬ EndsAtKey (tableContext edgeTable) edgeTable maxContractCellsCount ∧
      ¬ EndsAtKey (tableContext edgeTable) edgeTable 1 := by
  have hfault : ∀ {start : Nat}, Overruns edgeTable start →
      ¬ EndsAtKey (tableContext edgeTable) edgeTable start := fun hoverruns hends =>
    hends.inside ((putToNode_fault_iff (hasTable_tableContext _)).mpr hoverruns)
  have hfork : LabelAt edgeTable 1 64 (forkCell false 16) false 1 :=
    ⟨by decide, by decide, rfl, by decide +kernel⟩
  refine ⟨⟨hasTable_tableContext _,
    Strays.not_endsAtKey (hasTable_tableContext _) ⟨2, 9, forkTable_walks true⟩⟩,
    hasTable_tableContext _, hfault .here, hfault ?_⟩
  exact .child hfork (by decide) (by decide) rfl (by decide) (by decide) .here

end EverscaleLedger.Properties
