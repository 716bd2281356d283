import EverscaleLedger.Properties.Prefixing

/-! Cells as bit strings: the string that a serialized cell stands for, its canonical
encoding, and when the prefixed root is the encoding it should be. -/
namespace EverscaleLedger.Properties

open Library Source

/-- What is in front of the last one of a bit string: the completion tag removed. -/
def untagged (bits : List Bool) : List Bool := (bits.reverse.dropWhile (! ·)).tail.reverse

namespace RawCell

/-- The bit string of a cell. A completion tag is there when the second descriptor
byte is odd. -/
def bits (c : RawCell) : List Bool :=
  if c.d2.toNat % 2 = 0 then Bits.ofBytes c.data else untagged (Bits.ofBytes c.data)

/-- The cell is the canonical encoding of a bit string and of references. -/
structure Encodes (c : RawCell) (bits : List Bool) (refs : List UInt8) : Prop where
  d2 : c.d2.toNat = bits.length / 8 + (bits.length + 7) / 8
  data : c.data = Bits.pack (Bits.completed bits)
  refs : c.refs = refs

end RawCell

theorem d2OfBitLen_toNat {bitLen : Nat} (h : bitLen < 1024) :
    (d2OfBitLen bitLen).toNat = bitLen / 8 + (bitLen + 7) / 8 := by
  revert bitLen
  decide +kernel

theorem refsCountOf_ofNat {count : Nat} (h : count < 8) :
    refsCountOf (UInt8.ofNat count) = count := by
  revert count
  decide

theorem no_bits_lt : 0 < 1024 := by decide
theorem no_refs_lt : 0 < 8 := by decide
theorem one_ref_lt : 1 < 8 := by decide

/-- The ordinary cell of a bit string and references. -/
def RawCell.ordinary (bits : List Bool) (refs : List UInt8) (hbits : bits.length < 1024)
    (hrefs : refs.length < 8) : RawCell where
  d1 := UInt8.ofNat refs.length
  d2 := d2OfBitLen bits.length
  data := Bits.pack (Bits.completed bits)
  refs := refs
  data_length := by
    rw [Bits.length_pack, Bits.length_completed, dataSizeOf_d2OfBitLen hbits]
    omega
  refs_length := (refsCountOf_ofNat hrefs).symm

theorem RawCell.ordinary_encodes {bits : List Bool} {refs : List UInt8}
    (hbits : bits.length < 1024) (hrefs : refs.length < 8) :
    (RawCell.ordinary bits refs hbits hrefs).Encodes bits refs :=
  ⟨d2OfBitLen_toNat hbits, rfl, rfl⟩

/-! The scan for the tag. -/

theorem reverse_tag : ∀ byte : UInt8, byte ≠ 0 → Cell.tagSkip byte ≤ 8 ∧
    ((Bits.ofByte byte).reverse.dropWhile (! ·)).length + Cell.tagSkip byte = 9 :=
  Bits.forall_byte (by decide +kernel)

theorem scanTag_eq {data : List UInt8} {count : Nat} (h : count ≤ data.length) :
    Cell.scanTag data count (count * 8) =
      .ok (untagged (Bits.ofBytes (data.take count))).length := by
  unfold untagged
  rw [List.length_reverse, List.length_tail]
  induction count with
  | zero => rfl
  | succ count ih =>
    have hbyte : count < data.length := h
    have htake : data.take (count + 1) = data.take count ++ [data[count]] := by
      rw [List.take_add_one, List.getElem?_eq_getElem hbyte]
      rfl
    rw [Cell.scanTag, load_eq_ok.mpr (List.getElem?_eq_getElem hbyte), ok_bind, htake,
      Bits.ofBytes_append, List.reverse_append, Bits.ofBytes_cons, Bits.ofBytes_nil,
      List.append_nil]
    split
    next hzero =>
      have hfalse : (Bits.ofByte data[count]).reverse.dropWhile (! ·) = [] := by
        rw [hzero]
        decide
      rw [List.dropWhile_append, hfalse, Nat.succ_mul, Nat.add_sub_cancel, ih (Nat.le_of_lt hbyte)]
      rfl
    next hne =>
      obtain ⟨hmax, htag⟩ := reverse_tag _ hne
      have hskip : 1 ≤ Cell.tagSkip data[count] := Nat.le_add_left 1 _
      have hle := (List.dropWhile_sublist (! ·) (l := (Bits.ofByte data[count]).reverse)).length_le
      rw [List.length_reverse, Bits.length_ofByte] at hle
      have hsome : ((Bits.ofByte data[count]).reverse.dropWhile (! ·)).isEmpty = false := by
        rw [List.isEmpty_eq_false_iff, ← List.length_pos_iff]
        omega
      rw [List.dropWhile_append, hsome, if_neg Bool.false_ne_true, List.length_append,
        List.length_reverse, Bits.length_ofBytes, List.length_take]
      congr 1
      omega

/-- `Cell_bit_len` is the length of the bit string. -/
theorem RawCell.bitLen_eq (c : RawCell) : c.bitLen = .ok c.bits.length := by
  unfold RawCell.bitLen RawCell.bits
  rw [show c.d2.toNat &&& 1 = c.d2.toNat % 2 from Nat.and_one_is_mod _]
  split
  · rw [Bits.length_ofBytes, Nat.mul_comm]
    rfl
  · rw [scanTag_eq (Nat.le_refl _), List.take_length]

theorem RawCell.length_bits_le (c : RawCell) : c.bits.length ≤ 8 * c.data.length := by
  obtain ⟨bitLen, hle, hbitLen⟩ := c.bitLen_exists
  obtain rfl := Except.ok.inj (hbitLen.symm.trans c.bitLen_eq)
  omega

theorem untagged_tag (bits : List Bool) (count : Nat) :
    untagged (bits ++ true :: List.replicate count false) = bits := by
  unfold untagged
  rw [List.reverse_append, List.reverse_cons, List.reverse_replicate, List.append_assoc,
    List.dropWhile_append_of_pos (by simp)]
  simp

namespace RawCell.Encodes

variable {c : RawCell} {bits : List Bool} {refs : List UInt8}

theorem length_data (h : c.Encodes bits refs) : c.data.length = (bits.length + 7) / 8 := by
  rw [h.data, Bits.length_pack, Bits.length_completed]
  omega

theorem ofBytes_data (h : c.Encodes bits refs) : Bits.ofBytes c.data = Bits.completed bits := by
  rw [h.data, Bits.ofBytes_pack (by rw [Bits.length_completed]; omega)]

/-- An encoding stands for the string that it encodes. -/
theorem bits_eq (h : c.Encodes bits refs) : c.bits = bits := by
  have hd2 := h.d2
  unfold RawCell.bits
  rw [h.ofBytes_data]
  unfold Bits.completed
  by_cases haligned : bits.length % 8 = 0
  · rw [if_pos (by omega), if_pos haligned]
  · rw [if_neg (by omega), if_neg haligned]
    exact untagged_tag bits _

end RawCell.Encodes

/-! The prefixed root. -/

/-- Behind 267 bits the old tag lands where the new one belongs, or is cut off. -/
theorem take_completed {front bits : List Bool} (hfront : front.length = 267)
    (hoff : bits.length % 8 ≠ 0) :
    (front ++ Bits.completed bits ++ List.replicate 5 false).take
      (8 * ((bits.length + 267 + 7) / 8)) = Bits.completed (front ++ bits) := by
  have hlength : (front ++ bits).length = bits.length + 267 := by
    rw [List.length_append, hfront, Nat.add_comm]
  unfold Bits.completed
  rw [if_neg hoff, hlength, ← List.append_assoc front, List.append_assoc (front ++ bits),
    List.cons_append, List.replicate_append_replicate]
  split
  next haligned => rw [List.take_left' (by omega)]
  next htagged =>
    have hsplit : 8 * ((bits.length + 267 + 7) / 8) =
        (front ++ bits).length + (7 - (bits.length + 267) % 8 + 1) := by
      omega
    rw [hsplit, List.take_length_add_append, List.take_succ_cons, List.take_replicate,
      Nat.min_eq_left (by omega)]

/-- Without an old tag there is no new one. -/
theorem take_aligned {front bits : List Bool} (hfront : front.length = 267)
    (haligned : bits.length % 8 = 0) :
    (front ++ Bits.completed bits ++ List.replicate 5 false).take
      (8 * ((bits.length + 267 + 7) / 8)) ≠ Bits.completed (front ++ bits) := by
  have hlength : (front ++ bits).length = bits.length + 267 := by
    rw [List.length_append, hfront, Nat.add_comm]
  unfold Bits.completed
  rw [if_pos haligned, hlength, if_neg (by omega), show 8 * ((bits.length + 267 + 7) / 8) =
    (front ++ bits).length + 5 by omega, List.take_length_add_append]
  intro heq
  cases List.append_cancel_left heq

/-- The result is a cell that encodes the prefix and the bits of the root. -/
def PrefixedCorrectly (c : RawCell) (bits : List Bool) (wc : UInt8) (address : List UInt8)
    (result : Outcome Cell) : Prop :=
  ∃ (cell : Cell) (root : RawCell) (tail : List UInt8), result = .ok cell ∧
    Holds cell root tail ∧ root.d1 = c.d1 ∧
    root.Encodes (addressPrefix wc address ++ bits) c.refs

section

variable {cellBuffer address rest : List UInt8} {cell : Cell} {c : RawCell} {bits : List Bool}
  {wc : UInt8}

theorem not_prefixedCorrectly_of_fault (h : prependAddressToCell cellBuffer cell wc address =
    .error .fault) : ¬ PrefixedCorrectly c bits wc address
      (prependAddressToCell cellBuffer cell wc address) := by
  rintro ⟨result, root, tail, hresult, -⟩
  rw [h] at hresult
  cases hresult

/-- A byte-aligned root loses its end: the new cell has no completion tag. -/
theorem prefixed_aligned (hc : Holds cell c rest) (hbuffer : cellBuffer.length = cellBufferSize)
    (haddress : address.length = 32) (hencodes : c.Encodes bits c.refs)
    (hrefs : c.refs.length ≤ maxReferencesCount) (hne : bits ≠ [])
    (haligned : bits.length % 8 = 0) :
    ¬ PrefixedCorrectly c bits wc address (prependAddressToCell cellBuffer cell wc address) := by
  have hbits := hencodes.bits_eq
  have hlength := hencodes.length_data
  have hpos : 0 < bits.length := List.length_pos_iff.mpr hne
  have hdata : c.data ≠ [] := by
    intro hnil
    rw [hnil, List.length_nil] at hlength
    omega
  have hbitLen := c.bitLen_eq
  rw [hbits] at hbitLen
  by_cases hroom : c.data.length ≤ 94 ∧ (bits.length + 267 + 7) / 8 + c.refs.length ≤ 128
  · obtain ⟨result, root, tail, hresult, hholds, -, -, -, -, -, hroot⟩ :=
      prependAddressToCell_root wc hc hbuffer haddress hdata hbitLen hrefs hroom.1 hroom.2
    rintro ⟨result', root', tail', hresult', hholds', -, hencodes'⟩
    obtain rfl := Except.ok.inj (hresult.symm.trans hresult')
    obtain rfl := hholds.unique hholds'
    rw [hencodes'.ofBytes_data, hencodes.ofBytes_data] at hroot
    exact take_aligned (length_addressPrefix wc haddress) haligned hroot.symm
  · exact not_prefixedCorrectly_of_fault (prependAddressToCell_fault hc hbuffer haddress hdata
      hbitLen hrefs (by omega))

/-- The prefixed root is the encoding it should be exactly when the old one had a
completion tag and there is room for the spilled byte and the references. -/
theorem prefixed_cell_canonical_iff (hc : Holds cell c rest)
    (hbuffer : cellBuffer.length = cellBufferSize) (haddress : address.length = 32)
    (hencodes : c.Encodes bits c.refs) (hrefs : c.refs.length ≤ maxReferencesCount)
    (hmin : 129 ≤ bits.length) (hmax : bits.length + 267 ≤ 1023) :
    PrefixedCorrectly c bits wc address (prependAddressToCell cellBuffer cell wc address) ↔
      bits.length % 8 ≠ 0 ∧ bits.length ≤ 752 ∧
        (bits.length + 267 + 7) / 8 + c.refs.length ≤ 128 := by
  have hbits := hencodes.bits_eq
  have hlength := hencodes.length_data
  have hdata : c.data ≠ [] := by
    intro hnil
    rw [hnil, List.length_nil] at hlength
    omega
  have hbitLen := c.bitLen_eq
  rw [hbits] at hbitLen
  constructor
  · intro hcorrect
    refine ⟨fun haligned => ?_, ?_, ?_⟩
    · exact prefixed_aligned hc hbuffer haddress hencodes hrefs
        (List.length_pos_iff.mp (by omega)) haligned hcorrect
    · by_contra hlong
      exact not_prefixedCorrectly_of_fault (prependAddressToCell_fault hc hbuffer haddress hdata
        hbitLen hrefs (Or.inl (by omega))) hcorrect
    · by_contra hlong
      exact not_prefixedCorrectly_of_fault (prependAddressToCell_fault hc hbuffer haddress hdata
        hbitLen hrefs (Or.inr (by omega))) hcorrect
  · rintro ⟨hoff, hshort, hroom⟩
    obtain ⟨result, root, tail, hresult, hholds, -, hd1, hrefs', hd2, -, hroot⟩ :=
      prependAddressToCell_root wc hc hbuffer haddress hdata hbitLen hrefs (by omega) hroom
    have hprefix := length_addressPrefix wc haddress
    refine ⟨result, root, tail, hresult, hholds, hd1, ⟨?_, ?_, hrefs'⟩⟩
    · rw [hd2, d2OfBitLen_toNat (by omega), List.length_append, hprefix,
        Nat.add_comm bits.length]
    · rw [hencodes.ofBytes_data, take_completed hprefix hoff] at hroot
      rw [← hroot, Bits.pack_ofBytes]

end

/-- Behind the bits of a cell there is a completion tag, if anything. -/
theorem RawCell.bits_form (c : RawCell) : c.bits = Bits.ofBytes c.data ∨
    (∃ count, Bits.ofBytes c.data = c.bits ++ true :: List.replicate count false) ∨
    c.bits = [] ∧ ∀ bit ∈ Bits.ofBytes c.data, bit = false := by
  unfold bits
  split
  · exact Or.inl rfl
  · right
    generalize Bits.ofBytes c.data = data
    unfold untagged
    have hsplit := List.takeWhile_append_dropWhile (p := (! ·)) (l := data.reverse)
    have hzeros : ∀ bit ∈ data.reverse.takeWhile (! ·), bit = false := by
      intro bit hbit
      simpa using List.mem_takeWhile_imp hbit
    cases hdrop : data.reverse.dropWhile (! ·) with
    | nil =>
      right
      refine ⟨rfl, fun bit hbit => hzeros bit ?_⟩
      rw [hdrop, List.append_nil] at hsplit
      rw [hsplit]
      exact List.mem_reverse.mpr hbit
    | cons tag rest =>
      left
      have htag : tag = true := by
        have hhead := List.head?_dropWhile_not (! ·) data.reverse
        rw [hdrop] at hhead
        simpa using hhead
      refine ⟨(data.reverse.takeWhile (! ·)).length, ?_⟩
      rw [hdrop, htag, List.eq_replicate_of_mem hzeros] at hsplit
      have hback := congrArg List.reverse hsplit
      simpa using hback.symm

/-- The bits of the data that a prefixed root keeps. -/
structure PrefixedData (c root : RawCell) (wc : UInt8) (address : List UInt8) : Prop where
  d2 : root.d2 = d2OfBitLen (c.bits.length + 267)
  length : root.data.length = (c.bits.length + 267 + 7) / 8
  length_le : c.bits.length + 267 < 1024
  bits : Bits.ofBytes root.data = (addressPrefix wc address ++ Bits.ofBytes c.data ++
    List.replicate 5 false).take (8 * root.data.length)

/-- Behind the prefix stand the bits of the root, whatever becomes of its tag. -/
theorem PrefixedData.bits_behind {c root : RawCell} {wc : UInt8} {address : List UInt8}
    (h : PrefixedData c root wc address) (haddress : address.length = 32) :
    ∃ rest, Bits.ofBytes root.data = addressPrefix wc address ++ c.bits ++ rest := by
  have hfront := length_addressPrefix wc haddress
  have hlength : c.bits.length + 267 ≤ 8 * root.data.length := by
    rw [h.length]
    omega
  have htake : ∀ behind : List Bool, Bits.ofBytes root.data =
      (addressPrefix wc address ++ c.bits ++ behind).take (8 * root.data.length) →
      ∃ rest, Bits.ofBytes root.data = addressPrefix wc address ++ c.bits ++ rest := by
    intro behind hbits
    rw [List.take_append, List.take_of_length_le (by rw [List.length_append]; omega)] at hbits
    exact ⟨_, hbits⟩
  have hbits := h.bits
  obtain hall | ⟨count, htagged⟩ | ⟨hnil, -⟩ := c.bits_form
  · rw [← hall] at hbits
    exact htake _ hbits
  · rw [htagged, ← List.append_assoc, List.append_assoc (_ ++ c.bits)] at hbits
    exact htake _ hbits
  · rw [List.append_assoc] at hbits
    apply htake (Bits.ofBytes c.data ++ List.replicate 5 false)
    rw [hnil, List.append_nil]
    exact hbits

/-- The pointer to a cell at the start of a buffer. -/
def cellPointer (c : RawCell) : Cell := ⟨some c.bytes, c.bytes.length⟩

theorem holds_cellPointer (c : RawCell) : Holds (cellPointer c) c [] :=
  ⟨congrArg some (List.append_nil _).symm, c.two_le_length_bytes⟩

/-- A root of so many zero bits. -/
def zeroRoot (bitLen : Nat) (refs : List UInt8) (h : bitLen < 1024) (hrefs : refs.length < 8) :
    RawCell :=
  .ordinary (List.replicate bitLen false) refs (by rwa [List.length_replicate]) hrefs

theorem zeroRoot_encodes {bitLen : Nat} {refs : List UInt8} (h : bitLen < 1024)
    (hrefs : refs.length < 8) :
    (zeroRoot bitLen refs h hrefs).Encodes (List.replicate bitLen false)
      (zeroRoot bitLen refs h hrefs).refs :=
  RawCell.ordinary_encodes _ hrefs

/-- The header of a contract call without a public key, and a reference. -/
theorem prefixed_cell_canonical_call :
    PrefixedCorrectly (zeroRoot 129 [1] (by decide) (by decide)) (List.replicate 129 false) 0
      zeroHash.toList (prependAddressToCell (List.replicate cellBufferSize 0)
        (cellPointer (zeroRoot 129 [1] (by decide) (by decide))) 0 zeroHash.toList) :=
  (prefixed_cell_canonical_iff (holds_cellPointer _) List.length_replicate Vector.length_toList
    (zeroRoot_encodes _ _) (by decide) (by simp) (by simp)).mpr (by simp [zeroRoot, RawCell.ordinary])

theorem zeroRoot_fault {bitLen : Nat} {refs : List UInt8} (h : bitLen < 1024)
    (hrefs : refs.length < 8) (hcount : refs.length ≤ maxReferencesCount) (hpos : 0 < bitLen)
    (hlong : 94 < (bitLen + 7) / 8 ∨ 128 < (bitLen + 267 + 7) / 8 + refs.length) :
    prependAddressToCell (List.replicate cellBufferSize 0)
      (cellPointer (zeroRoot bitLen refs h hrefs)) 0 zeroHash.toList = .error .fault := by
  have hencodes := zeroRoot_encodes h hrefs
  have hlength := hencodes.length_data
  have hbitLen := (zeroRoot bitLen refs h hrefs).bitLen_eq
  rw [hencodes.bits_eq] at hbitLen
  rw [List.length_replicate] at hlength hbitLen
  refine prependAddressToCell_fault (holds_cellPointer _) List.length_replicate
    Vector.length_toList ?_ hbitLen hcount ?_
  · intro hnil
    rw [hnil, List.length_nil] at hlength
    omega
  · rw [hlength]
    exact hlong

/-- A byte-aligned root, a root whose spill leaves the buffer, and a root whose
references do. -/
theorem prefixed_cell_not_canonical :
    (¬ PrefixedCorrectly (zeroRoot 136 [1] (by decide) (by decide)) (List.replicate 136 false) 0
      zeroHash.toList (prependAddressToCell (List.replicate cellBufferSize 0)
        (cellPointer (zeroRoot 136 [1] (by decide) (by decide))) 0 zeroHash.toList)) ∧
    (¬ PrefixedCorrectly (zeroRoot 753 [1] (by decide) (by decide)) (List.replicate 753 false) 0
      zeroHash.toList (prependAddressToCell (List.replicate cellBufferSize 0)
        (cellPointer (zeroRoot 753 [1] (by decide) (by decide))) 0 zeroHash.toList)) ∧
    ¬ PrefixedCorrectly (zeroRoot 745 [1, 2] (by decide) (by decide)) (List.replicate 745 false) 0
      zeroHash.toList (prependAddressToCell (List.replicate cellBufferSize 0)
        (cellPointer (zeroRoot 745 [1, 2] (by decide) (by decide))) 0 zeroHash.toList) := by
  refine ⟨?_, not_prefixedCorrectly_of_fault (zeroRoot_fault _ _ (by decide) (by decide) (by decide)),
    not_prefixedCorrectly_of_fault (zeroRoot_fault _ _ (by decide) (by decide) (by decide))⟩
  exact prefixed_aligned (holds_cellPointer _) List.length_replicate Vector.length_toList
    (zeroRoot_encodes _ _) (by decide) (by simp) (by simp)

end EverscaleLedger.Properties
