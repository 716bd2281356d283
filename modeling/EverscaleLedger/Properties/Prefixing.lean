import EverscaleLedger.Library.Bits
import EverscaleLedger.Properties.PrependAddress

/-! What `SliceData_append` writes, as bit strings, and with it the data of the cell
that `prepend_address_to_cell` puts in place of the root. -/
namespace EverscaleLedger.Properties

open Library Source

/-! The byte loop. -/

/-- The bytes that the loop writes: each one has the bits `prev` that the last one
spilled, and what is left at the end goes to a byte of its own. -/
def shiftedBytes (shift : Nat) : (prev : Nat) → List UInt8 → List UInt8
  | prev, [] => [UInt8.ofNat prev]
  | prev, byte :: rest =>
      UInt8.ofNat (prev ||| byte.toNat >>> shift) ::
        shiftedBytes shift ((byte.toNat <<< (8 - shift)) % 256) rest

@[simp] theorem length_shiftedBytes (shift prev : Nat) (input : List UInt8) :
    (shiftedBytes shift prev input).length = input.length + 1 := by
  induction input generalizing prev with
  | nil => rfl
  | cons byte rest ih => rw [shiftedBytes, List.length_cons, ih, List.length_cons]

theorem ofNat_mod_byte (value : Nat) : Bits.ofNat 8 (value % 256) = Bits.ofNat 8 value := by
  apply Bits.number_inj (by simp)
  rw [Bits.number_ofNat, Bits.number_ofNat]
  exact Nat.mod_mod value 256

theorem ofBytes_shiftedBytes {shift prev : Nat} {high : List Bool} (hshift : shift ≤ 8)
    (hhigh : high.length = shift)
    (hprev : Bits.ofNat 8 prev = high ++ List.replicate (8 - shift) false) (input : List UInt8) :
    Bits.ofBytes (shiftedBytes shift prev input) =
      high ++ Bits.ofBytes input ++ List.replicate (8 - shift) false := by
  induction input generalizing prev high with
  | nil =>
    rw [shiftedBytes, Bits.ofBytes_cons, Bits.ofByte_ofNat, hprev, Bits.ofBytes_nil,
      List.append_nil, List.append_nil]
  | cons byte rest ih =>
    have hfirst : Bits.ofNat 8 (prev ||| byte.toNat >>> shift) =
        high ++ (Bits.ofByte byte).take (8 - shift) := by
      refine Bits.ofNat_lor ?_ ?_
      · rw [hprev, List.length_take, Bits.length_ofByte, Nat.min_eq_left (Nat.sub_le 8 shift)]
      · rw [hhigh]
        exact Bits.ofNat_shiftRight byte.toNat_lt hshift
    have hspilled : Bits.ofNat 8 ((byte.toNat <<< (8 - shift)) % 256) =
        (Bits.ofByte byte).drop (8 - shift) ++ List.replicate (8 - shift) false := by
      rw [ofNat_mod_byte, Bits.ofNat_shiftLeft _ (Nat.sub_le 8 shift)]
      rfl
    have hlength : ((Bits.ofByte byte).drop (8 - shift)).length = shift := by
      rw [List.length_drop, Bits.length_ofByte]
      omega
    rw [shiftedBytes, Bits.ofBytes_cons, Bits.ofByte_ofNat, hfirst, ih hlength hspilled,
      Bits.ofBytes_cons]
    conv_rhs => rw [← List.take_append_drop (8 - shift) (Bits.ofByte byte)]
    simp only [List.append_assoc]

/-- The bits of the first byte that stay. -/
def keptBits (slice : SliceData) (firstDataByte shift : Nat) : Nat :=
  ((slice.data.getD firstDataByte 0).toNat >>> (8 - shift)) <<< (8 - shift)

section

variable {slice : SliceData} {input : List UInt8} {shift firstDataByte count j prev bits : Nat}

theorem appendBytes_eq (hcount : 0 < count) (hinput : j + count = input.length)
    (hroom : firstDataByte + input.length < slice.data.length)
    (hsize : slice.data.length ≤ slice.dataSizeBytes) :
    SliceData.appendBytes input false shift firstDataByte input.length count j prev bits slice =
      .ok (bits, { slice with
        data := slice.data.take (firstDataByte + j) ++
          shiftedBytes shift (if j = 0 then keptBits slice firstDataByte shift else prev)
            (input.drop j) ++ slice.data.drop (firstDataByte + input.length + 1) }) := by
  induction count generalizing j prev slice with
  | zero => exact absurd hcount (Nat.lt_irrefl 0)
  | succ count ih =>
    have hj : j < input.length := by omega
    have hi : firstDataByte + j < slice.data.length := by omega
    have hfirst : (if j = 0 then do
          let old ← load slice.data (firstDataByte + j)
          pure ((old.toNat >>> (8 - shift)) <<< (8 - shift))
        else pure prev) =
        (.ok (if j = 0 then keptBits slice firstDataByte shift else prev) : Outcome Nat) := by
      split
      next hzero =>
        subst hzero
        have hkept := List.getD_eq_getElem slice.data 0 (show firstDataByte < slice.data.length from hi)
        rw [load_eq_ok.mpr (List.getElem?_eq_getElem hi), ok_bind, keptBits, hkept]
        rfl
      next => rfl
    rw [SliceData.appendBytes, validate_of_true (show firstDataByte + j < slice.dataSizeBytes by omega),
      ok_bind, load_eq_ok.mpr (List.getElem?_eq_getElem hj), ok_bind]
    simp only [hfirst, ok_bind]
    generalize hkept : (if j = 0 then keptBits slice firstDataByte shift else prev) = first
    rw [store_eq_ok.mpr ⟨hi, rfl⟩, ok_bind, List.drop_eq_getElem_cons hj, shiftedBytes]
    have htake : ∀ value : UInt8, (slice.data.set (firstDataByte + j) value).take
        (firstDataByte + j + 1) = slice.data.take (firstDataByte + j) ++ [value] := by
      intro value
      rw [List.take_add_one, List.getElem?_set_self hi, List.take_set_of_le (Nat.le_refl _)]
      rfl
    split
    next hlast =>
      obtain rfl : count = 0 := by omega
      have hnext : firstDataByte + j + 1 < slice.data.length := by omega
      have hspill : input.drop (j + 1) = [] := List.drop_eq_nil_of_le (by omega)
      simp only [Bool.false_eq_true, if_false]
      rw [store_eq_ok.mpr ⟨by rw [List.length_set]; exact hnext, rfl⟩, ok_bind,
        SliceData.appendBytes, hspill, shiftedBytes]
      have hdata : ∀ first second : UInt8,
          ((slice.data.set (firstDataByte + j) first).set (firstDataByte + j + 1) second) =
            slice.data.take (firstDataByte + j) ++ [first, second] ++
              slice.data.drop (firstDataByte + input.length + 1) := by
        intro first second
        rw [show firstDataByte + input.length + 1 = firstDataByte + j + 1 + 1 by omega,
          List.set_eq_take_append_cons_drop, if_pos (by rw [List.length_set]; exact hnext), htake,
          List.drop_set_of_lt (by omega)]
        simp
      rw [hdata]
      rfl
    next hmore =>
      rw [ih (by omega) (by omega) (by rw [List.length_set]; exact hroom)
        (by rw [List.length_set]; exact hsize), if_neg (Nat.succ_ne_zero j),
        show firstDataByte + (j + 1) = firstDataByte + j + 1 by omega, htake,
        List.drop_set_of_lt (by omega)]
      simp

/-- Without room for the last byte and its spill the loop leaves the data. -/
theorem appendBytes_fault (hcount : 0 < count) (hinput : j + count = input.length)
    (hroom : slice.data.length ≤ firstDataByte + input.length)
    (hstart : firstDataByte + j ≤ slice.data.length)
    (hsize : slice.data.length < slice.dataSizeBytes) :
    SliceData.appendBytes input false shift firstDataByte input.length count j prev bits slice =
      .error .fault := by
  induction count generalizing j prev slice with
  | zero => exact absurd hcount (Nat.lt_irrefl 0)
  | succ count ih =>
    have hj : j < input.length := by omega
    rw [SliceData.appendBytes, validate_of_true (show firstDataByte + j < slice.dataSizeBytes by omega),
      ok_bind, load_eq_ok.mpr (List.getElem?_eq_getElem hj), ok_bind]
    by_cases hi : firstDataByte + j < slice.data.length
    · obtain ⟨first, hfirst⟩ : ∃ first, (if j = 0 then do
            let old ← load slice.data (firstDataByte + j)
            pure ((old.toNat >>> (8 - shift)) <<< (8 - shift))
          else pure prev) = (.ok first : Outcome Nat) := by
        split
        · rw [load_eq_ok.mpr (List.getElem?_eq_getElem hi)]
          exact ⟨_, rfl⟩
        · exact ⟨_, rfl⟩
      simp only [hfirst, ok_bind]
      rw [store_eq_ok.mpr ⟨hi, rfl⟩, ok_bind]
      split
      next hlast =>
        have hfull : ¬ firstDataByte + j + 1 < (slice.data.set (firstDataByte + j)
            (UInt8.ofNat (first ||| input[j].toNat >>> shift))).length := by
          rw [List.length_set]
          omega
        rw [store, writeAt, if_neg hfull]
        rfl
      next =>
        exact ih (by omega) (by omega) (by rw [List.length_set]; exact hroom)
          (by rw [List.length_set]; omega) (by rw [List.length_set]; exact hsize)
    · have hload : load slice.data (firstDataByte + j) = .error .fault := by
        rw [load, readAt, List.getElem?_eq_none (by omega)]
      have hstore : ∀ value, store slice.data (firstDataByte + j) value = .error .fault :=
        fun value => if_neg hi
      split
      · rw [hload]
        rfl
      · simp only [pure_bind, hstore]
        rfl

end

/-! One append. -/

theorem append_off_boundary {slice : SliceData} {input : List UInt8} (hne : input ≠ [])
    (hshift : slice.dataWindowStart % 8 ≠ 0) (hlength : input.length < 256)
    (hstart : slice.dataWindowStart / 8 < 256)
    (hremaining : input.length ≤ slice.remainingBits * 8) :
    slice.append input (input.length * 8) false = (do
      let (bits, self) ← SliceData.appendBytes input false (slice.dataWindowStart % 8)
        (slice.dataWindowStart / 8) input.length input.length 0 0 (input.length * 8) slice
      pure { self with dataWindowStart := (slice.dataWindowStart + bits) % 2 ^ 16 }) := by
  have hpos : 0 < input.length := List.length_pos_iff.mpr hne
  have hbytes : input.length * 8 / 8 % 256 = input.length := by omega
  unfold SliceData.append
  simp only [hbytes]
  rw [validate_of_true hremaining, ok_bind, if_neg (by omega), Nat.mod_eq_of_lt hstart]

/-- An append off a byte boundary writes the bits of the input behind those that are
there, and clears the rest of the last byte it touches. -/
theorem append_bits {slice : SliceData} {input : List UInt8} (hne : input ≠ [])
    (hshift : slice.dataWindowStart % 8 ≠ 0) (hlength : input.length < 256)
    (hstart : slice.dataWindowStart / 8 < 256) (hremaining : input.length ≤ slice.remainingBits * 8)
    (hroom : slice.dataWindowStart / 8 + input.length < slice.data.length)
    (hsize : slice.data.length ≤ slice.dataSizeBytes) :
    ∃ data, slice.append input (input.length * 8) false = .ok { slice with
        data, dataWindowStart := slice.dataWindowStart + input.length * 8 } ∧
      data.length = slice.data.length ∧
      Bits.ofBytes data = (Bits.ofBytes slice.data).take slice.dataWindowStart ++
        Bits.ofBytes input ++ List.replicate (8 - slice.dataWindowStart % 8) false ++
        (Bits.ofBytes slice.data).drop (8 * (slice.dataWindowStart / 8 + input.length + 1)) := by
  have hpos : 0 < input.length := List.length_pos_iff.mpr hne
  rw [append_off_boundary hne hshift hlength hstart hremaining]
  generalize hfirst : slice.dataWindowStart / 8 = first at *
  refine ⟨slice.data.take (first + 0) ++
    shiftedBytes (slice.dataWindowStart % 8) (keptBits slice first (slice.dataWindowStart % 8))
      (input.drop 0) ++ slice.data.drop (first + input.length + 1), ?_, ?_, ?_⟩
  · rw [appendBytes_eq hpos (Nat.zero_add _) hroom hsize, if_pos rfl, ok_bind]
    simp only [Nat.mod_eq_of_lt (show slice.dataWindowStart + input.length * 8 < 2 ^ 16 by omega)]
    rfl
  · simp only [List.length_append, List.length_take, List.length_drop, length_shiftedBytes]
    omega
  · generalize hshift' : slice.dataWindowStart % 8 = shift at *
    have hbyte : first < slice.data.length := by omega
    have hkept : Bits.ofNat 8 (keptBits slice first shift) =
        (Bits.ofByte slice.data[first]).take shift ++ List.replicate (8 - shift) false := by
      unfold keptBits
      rw [List.getD_eq_getElem _ 0 hbyte, Bits.ofNat_shiftLeft _ (Nat.sub_le 8 shift),
        Bits.ofNat_shiftRight (UInt8.toNat_lt _) (Nat.sub_le 8 shift), List.drop_left' (by simp)]
      congr 2
      omega
    have hhigh : ((Bits.ofByte slice.data[first]).take shift).length = shift := by
      rw [List.length_take, Bits.length_ofByte]
      omega
    have hfront : (Bits.ofBytes slice.data).take slice.dataWindowStart =
        Bits.ofBytes (slice.data.take first) ++ (Bits.ofByte slice.data[first]).take shift := by
      rw [show slice.dataWindowStart = 8 * first + shift by omega, List.take_add, ← Bits.ofBytes_take,
        ← Bits.ofBytes_drop, List.drop_eq_getElem_cons hbyte, Bits.ofBytes_cons,
        List.take_append_of_le_length (by rw [Bits.length_ofByte]; omega)]
    rw [List.drop_zero, Bits.ofBytes_append, Bits.ofBytes_append,
      ofBytes_shiftedBytes (by omega) hhigh hkept, Bits.ofBytes_drop, hfront]
    simp only [List.append_assoc, Nat.add_zero]

theorem append_fault {slice : SliceData} {input : List UInt8} (hne : input ≠ [])
    (hshift : slice.dataWindowStart % 8 ≠ 0) (hlength : input.length < 256)
    (hstart : slice.dataWindowStart / 8 < 256) (hremaining : input.length ≤ slice.remainingBits * 8)
    (hfirst : slice.dataWindowStart / 8 ≤ slice.data.length)
    (hroom : slice.data.length ≤ slice.dataWindowStart / 8 + input.length)
    (hsize : slice.data.length < slice.dataSizeBytes) :
    slice.append input (input.length * 8) false = .error .fault := by
  rw [append_off_boundary hne hshift hlength hstart hremaining,
    appendBytes_fault (List.length_pos_iff.mpr hne) (Nat.zero_add _) hroom hfirst hsize]
  rfl

/-! The prefix. -/

/-- The `addr_std` in front of the data: tag and anycast bit, workchain, account. -/
def addressPrefix (wc : UInt8) (address : List UInt8) : List Bool :=
  [true, false, false] ++ Bits.ofByte wc ++ Bits.ofBytes address

theorem length_addressPrefix (wc : UInt8) {address : List UInt8} (h : address.length = 32) :
    (addressPrefix wc address).length = 267 := by
  simp [addressPrefix, h]

/-- The slice over the cell buffer, with some bits written and the rest of the last
byte cleared. -/
structure Written (slice : SliceData) (written : List Bool) : Prop where
  start : slice.dataWindowStart = written.length
  bits : ∃ rest, Bits.ofBytes slice.data =
    written ++ List.replicate (8 - written.length % 8) false ++ rest
  length : slice.data.length = 128
  size : slice.dataSizeBytes = cellBufferSize
  window : slice.dataWindowEnd = 1040

section

variable {slice : SliceData} {written : List Bool} {input : List UInt8}

theorem Written.append (h : Written slice written) (hoff : written.length % 8 ≠ 0)
    (hne : input ≠ []) (hroom : written.length / 8 + input.length < 128) :
    ∃ next, slice.append input (input.length * 8) false = .ok next ∧
      Written next (written ++ Bits.ofBytes input) := by
  obtain ⟨rest, hbits⟩ := h.bits
  have hlength := h.length
  have hsize : slice.data.length ≤ slice.dataSizeBytes := by
    rw [h.length, h.size]
    decide
  have hremaining : input.length ≤ slice.remainingBits * 8 := by
    unfold SliceData.remainingBits
    rw [h.window, h.start]
    omega
  rw [← h.start] at hoff hroom
  obtain ⟨data, happend, hdata, hnext⟩ := append_bits hne hoff (by omega) (by omega) hremaining
    (by omega) hsize
  refine ⟨_, happend, ⟨?_, ⟨(Bits.ofBytes slice.data).drop
    (8 * (slice.dataWindowStart / 8 + input.length + 1)), ?_⟩, hdata.trans h.length, h.size,
    h.window⟩⟩
  · rw [List.length_append, Bits.length_ofBytes, h.start, Nat.mul_comm]
  · have hmod : (written ++ Bits.ofBytes input).length % 8 = slice.dataWindowStart % 8 := by
      rw [List.length_append, Bits.length_ofBytes, h.start]
      omega
    rw [hmod, hnext, hbits, List.append_assoc written, List.take_left' h.start.symm]

theorem Written.append_fault (h : Written slice written) (hoff : written.length % 8 ≠ 0)
    (hne : input ≠ []) (hlength : input.length < 256) (hstart : written.length / 8 ≤ 64)
    (hroom : 128 ≤ written.length / 8 + input.length) :
    slice.append input (input.length * 8) false = .error .fault := by
  have hlength' := h.length
  have hremaining : input.length ≤ slice.remainingBits * 8 := by
    unfold SliceData.remainingBits
    rw [h.window, h.start]
    omega
  have hsize : slice.data.length < slice.dataSizeBytes := by
    rw [h.length, h.size]
    decide
  rw [← h.start] at hoff hroom hstart
  exact Properties.append_fault hne hoff hlength (by omega) hremaining (by omega) (by omega) hsize

end

/-- The prefix is written; the data of the root follows it. -/
theorem prefix_written {cellBuffer address : List UInt8} (wc : UInt8)
    (hbuffer : cellBuffer.length = cellBufferSize) (haddress : address.length = 32) :
    ∃ s1, (SliceData.init (cellBuffer.drop cellDataOffset) cellBufferSize).append [0x80] 3 false =
        .ok s1 ∧ ∃ s2, s1.append [wc] 8 false = .ok s2 ∧
        ∃ s3, s2.append address (addressLength * 8) false = .ok s3 ∧
          Written s3 (addressPrefix wc address) := by
  have hdrop : (cellBuffer.drop cellDataOffset).length = 128 := by
    rw [List.length_drop, hbuffer]
    rfl
  cases hrest : cellBuffer.drop cellDataOffset with
  | nil =>
    rw [hrest] at hdrop
    cases hdrop
  | cons first rest =>
    rw [hrest] at hdrop
    have hinit : SliceData.init (first :: rest) cellBufferSize =
        ⟨first :: rest, 0, 1040, cellBufferSize⟩ := by
      unfold SliceData.init
      rw [List.take_of_length_le (by rw [hdrop]; decide)]
      rfl
    have hfirst : Written ⟨(0x80 : UInt8) :: rest, 3, 1040, cellBufferSize⟩ [true, false, false] :=
      ⟨rfl, ⟨Bits.ofBytes rest, Bits.ofBytes_cons _ _⟩, hdrop, rfl, rfl⟩
    refine ⟨⟨(0x80 : UInt8) :: rest, 3, 1040, cellBufferSize⟩, ?_, ?_⟩
    · have hstore : storeMany (first :: rest) 0 [0x80] = .ok ((0x80 : UInt8) :: rest) :=
        storeMany_eq_ok.mpr ⟨Nat.succ_le_succ (Nat.zero_le _), rfl⟩
      rw [hinit]
      unfold SliceData.append
      simp only
      rw [validate_of_true (Nat.zero_le _), ok_bind, if_pos (Or.inl trivial)]
      change (do
        let data ← storeMany (first :: rest) 0 [0x80]
        pure { data, dataWindowStart := 3, dataWindowEnd := 1040, dataSizeBytes := cellBufferSize :
          SliceData }) = _
      rw [hstore]
      rfl
    obtain ⟨s2, h2, hwritten2⟩ := @Written.append _ _ [wc] hfirst (by decide) (by simp)
      (Nat.lt_of_sub_pos (by decide : 0 < 128 - (3 / 8 + 1)))
    refine ⟨s2, h2, ?_⟩
    have hlength2 : ([true, false, false] ++ Bits.ofBytes [wc]).length = 11 := by simp
    obtain ⟨s3, h3, hwritten3⟩ := @Written.append _ _ address hwritten2
      (by rw [hlength2]; decide)
      (by rintro rfl; cases haddress) (by rw [hlength2, haddress]; decide)
    rw [haddress] at h3
    refine ⟨s3, h3, ?_⟩
    rwa [Bits.ofBytes_cons, Bits.ofBytes_nil, List.append_nil] at hwritten3

section

variable {cellBuffer address data : List UInt8} {wc : UInt8}

theorem prependedSlice_bits (wc : UInt8) (hbuffer : cellBuffer.length = cellBufferSize)
    (haddress : address.length = 32) (hne : data ≠ []) (hdata : data.length ≤ 94) :
    ∃ final, prependedSlice cellBuffer wc address data = .ok final ∧
      Written final (addressPrefix wc address ++ Bits.ofBytes data) := by
  obtain ⟨s1, h1, s2, h2, s3, h3, hwritten⟩ := prefix_written wc hbuffer haddress
  have hlength := length_addressPrefix wc haddress
  obtain ⟨s4, h4, hwritten4⟩ := @Written.append _ _ data hwritten
    (by rw [hlength]; decide) hne
    (by rw [hlength]; omega)
  exact ⟨s4, prependedSlice_eq_ok.mpr ⟨s1, h1, s2, h2, s3, h3, h4⟩, hwritten4⟩

/-- The spill of the last data byte leaves the buffer. -/
theorem prependedSlice_fault (hbuffer : cellBuffer.length = cellBufferSize)
    (haddress : address.length = 32) (hdata : 94 < data.length) (hlt : data.length < 256) :
    prependedSlice cellBuffer wc address data = .error .fault := by
  obtain ⟨s1, h1, s2, h2, s3, h3, hwritten⟩ := prefix_written wc hbuffer haddress
  have hlength := length_addressPrefix wc haddress
  unfold prependedSlice
  simp only
  rw [h1, ok_bind, h2, ok_bind, h3, ok_bind]
  exact hwritten.append_fault (by rw [hlength]; decide) (by rintro rfl; cases hdata) hlt
    (by rw [hlength]; decide) (by rw [hlength]; omega)

end

/-! The cell. -/

theorem dataSizeOf_d2OfBitLen {bitLen : Nat} (h : bitLen < 1024) :
    dataSizeOf (d2OfBitLen bitLen) = (bitLen + 7) / 8 := by
  revert bitLen
  decide +kernel

theorem scanTag_exists {data : List UInt8} {count bitLen : Nat} (h : count ≤ data.length) :
    ∃ result ≤ bitLen, Cell.scanTag data count bitLen = .ok result := by
  induction count generalizing bitLen with
  | zero => exact ⟨bitLen, Nat.le_refl _, rfl⟩
  | succ count ih =>
    rw [Cell.scanTag, load_eq_ok.mpr (List.getElem?_eq_getElem h), ok_bind]
    split
    · obtain ⟨result, hle, hresult⟩ := @ih (bitLen - 8) (by omega)
      exact ⟨result, by omega, hresult⟩
    · exact ⟨_, Nat.sub_le _ _, rfl⟩

/-- The scan for the completion tag always ends with some length. -/
theorem RawCell.bitLen_exists (c : RawCell) : ∃ bitLen ≤ c.data.length * 8, c.bitLen = .ok bitLen := by
  unfold RawCell.bitLen
  split
  · exact ⟨_, Nat.le_refl _, rfl⟩
  · exact scanTag_exists (Nat.le_refl _)

section

variable {cellBuffer address rest : List UInt8} {cell : Cell} {c : RawCell} {wc : UInt8}
  {bitLen : Nat}

theorem prependAddressToCell_eq (wc : UInt8) (hc : Holds cell c rest)
    (hbuffer : cellBuffer.length = cellBufferSize)
    (haddress : address.length = 32) (hne : c.data ≠ []) (hbitLen : c.bitLen = .ok bitLen) :
    prependAddressToCell cellBuffer cell wc address = (do
      let slice ← prependedSlice cellBuffer wc address c.data
      validate (c.refs.length ≤ maxReferencesCount) .invalidMessage
      let buffer ← copyRefs (c.refs ++ rest)
        (cellDataOffset + dataSizeOf (d2OfBitLen (bitLen + 267))) c.refs.length 0
        ([c.d1, d2OfBitLen (bitLen + 267)] ++ slice.data)
      pure { cell with cellBegin := some buffer }) := by
  obtain ⟨s1, h1, s2, h2, s3, h3, hwritten⟩ := prefix_written wc hbuffer haddress
  have hlength := c.length_data_le
  have hshift : s3.dataWindowStart % 8 ≠ 0 := by
    rw [hwritten.start, length_addressPrefix wc haddress]
    decide
  have happend := @append_append s3 _ (c.refs ++ rest) false hne
    (by omega) hshift
  rcases cellBuffer with _ | ⟨x, _ | ⟨y, buffer⟩⟩
  · cases hbuffer
  · cases hbuffer
  have hstore : ∀ value, store (x :: y :: buffer) 0 value = .ok (value :: y :: buffer) :=
    fun value => store_eq_ok.mpr ⟨Nat.succ_pos _, rfl⟩
  have hstore' : ∀ first value, store (first :: y :: buffer) 1 value =
      .ok (first :: value :: buffer) :=
    fun first value => store_eq_ok.mpr ⟨Nat.succ_lt_succ (Nat.succ_pos _), rfl⟩
  simp only [prependAddressToCell, prependedSlice, hc.getD1, hc.getData, hc.getDataSize,
    hc.getRefs, hc.bitLen, hbitLen, ok_bind, hstore, hstore']
  simp only [cellDataOffset, List.drop_succ_cons, List.drop_zero] at h1 ⊢
  simp only [h1, h2, h3, ok_bind, happend]
  rfl

theorem copyRefs_fault {refs : List UInt8} {start child : Nat} {buffer : List UInt8}
    (pending : List UInt8) (hrefs : refs.drop child = pending ++ rest) (hne : pending ≠ [])
    (hroom : buffer.length < start + child + pending.length) :
    copyRefs refs start pending.length child buffer = .error .fault := by
  induction pending generalizing child buffer with
  | nil => exact absurd rfl hne
  | cons r pending ih =>
    obtain ⟨hload, hnext⟩ := load_of_drop hrefs
    rw [List.length_cons] at hroom ⊢
    rw [copyRefs, hload, ok_bind]
    by_cases hindex : start + child < buffer.length
    · rw [store_eq_ok.mpr ⟨hindex, rfl⟩, ok_bind]
      refine ih hnext ?_ (by rw [List.length_set]; omega)
      rintro rfl
      rw [List.length_nil] at hroom
      omega
    · rw [store, writeAt, if_neg hindex]
      rfl

/-- A root that is too long for the buffer, with its prefix or with its references,
makes the call leave the buffer. -/
theorem prependAddressToCell_fault (hc : Holds cell c rest)
    (hbuffer : cellBuffer.length = cellBufferSize) (haddress : address.length = 32)
    (hne : c.data ≠ []) (hbitLen : c.bitLen = .ok bitLen)
    (hrefs : c.refs.length ≤ maxReferencesCount)
    (hlong : 94 < c.data.length ∨ 128 < (bitLen + 267 + 7) / 8 + c.refs.length) :
    prependAddressToCell cellBuffer cell wc address = .error .fault := by
  have hlength := c.length_data_le
  rw [prependAddressToCell_eq wc hc hbuffer haddress hne hbitLen]
  by_cases hdata : c.data.length ≤ 94
  · obtain ⟨final, hslice, hwritten⟩ := prependedSlice_bits wc hbuffer haddress hne hdata
    obtain ⟨scanned, hle, hscanned⟩ := c.bitLen_exists
    obtain rfl := Except.ok.inj (hbitLen.symm.trans hscanned)
    rw [hslice, ok_bind, validate_of_true hrefs, ok_bind,
      dataSizeOf_d2OfBitLen (show bitLen + 267 < 1024 by omega), copyRefs_fault c.refs rfl ?_ ?_]
    · rfl
    · rintro hnil
      rw [hnil, List.length_nil] at hlong
      omega
    · rw [List.length_append, hwritten.length]
      change 2 + 128 < 2 + _ + 0 + _
      omega
  · rw [prependedSlice_fault hbuffer haddress (by omega) (by omega)]
    rfl

/-- So a call that returns had room for both. -/
theorem prependAddressToCell_room {result : Cell} (hc : Holds cell c rest)
    (hbuffer : cellBuffer.length = cellBufferSize) (haddress : address.length = 32)
    (hne : c.data ≠ []) (hbitLen : c.bitLen = .ok bitLen)
    (hrefs : c.refs.length ≤ maxReferencesCount)
    (h : prependAddressToCell cellBuffer cell wc address = .ok result) :
    c.data.length ≤ 94 ∧ (bitLen + 267 + 7) / 8 + c.refs.length ≤ 128 := by
  by_contra hlong
  rw [prependAddressToCell_fault hc hbuffer haddress hne hbitLen hrefs (by omega)] at h
  cases h

/-- With room, the root is replaced by a cell of the buffer: the bits of the prefix
and of the data, cut at the size that the second descriptor byte gives. -/
theorem prependAddressToCell_root (wc : UInt8) (hc : Holds cell c rest)
    (hbuffer : cellBuffer.length = cellBufferSize) (haddress : address.length = 32)
    (hne : c.data ≠ []) (hbitLen : c.bitLen = .ok bitLen)
    (hrefs : c.refs.length ≤ maxReferencesCount) (hdata : c.data.length ≤ 94)
    (hroom : (bitLen + 267 + 7) / 8 + c.refs.length ≤ 128) :
    ∃ (result : Cell) (root : RawCell) (tail : List UInt8),
      prependAddressToCell cellBuffer cell wc address = .ok result ∧ Holds result root tail ∧
      (root.bytes ++ tail).length = cellBufferSize ∧ root.d1 = c.d1 ∧ root.refs = c.refs ∧
      root.d2 = d2OfBitLen (bitLen + 267) ∧ root.data.length = (bitLen + 267 + 7) / 8 ∧
      Bits.ofBytes root.data = (addressPrefix wc address ++ Bits.ofBytes c.data ++
        List.replicate 5 false).take (8 * ((bitLen + 267 + 7) / 8)) := by
  obtain ⟨final, hslice, hwritten⟩ := prependedSlice_bits wc hbuffer haddress hne hdata
  obtain ⟨scanned, hle, hscanned⟩ := c.bitLen_exists
  obtain rfl := Except.ok.inj (hbitLen.symm.trans hscanned)
  have hcell := prependAddressToCell_eq wc hc hbuffer haddress hne hbitLen
  rw [hslice, ok_bind, validate_of_true hrefs, ok_bind] at hcell
  have hsize := dataSizeOf_d2OfBitLen (show bitLen + 267 < 1024 by omega)
  rw [hsize] at hcell
  generalize hbytes : (bitLen + 267 + 7) / 8 = size at hroom hsize hcell ⊢
  generalize d2OfBitLen (bitLen + 267) = d2 at hsize hcell ⊢
  have hlength := hwritten.length
  obtain ⟨buffer, hbuffer'⟩ := @copyRefs_exists (c.refs ++ rest) rest
    (cellDataOffset + size) 0 ([c.d1, d2] ++ final.data) c.refs rfl (Or.inr (by
      rw [List.length_append, hlength]
      change 2 + size + 0 + c.refs.length ≤ 2 + 128
      omega))
  obtain ⟨hsame, htake, tail, hdrop⟩ := copyRefs_ok c.refs rfl hbuffer'
  rw [Nat.add_zero] at htake hdrop
  have hfinal : buffer = [c.d1, d2] ++ final.data.take size ++ (c.refs ++ tail) := by
    rw [← List.take_append_drop (cellDataOffset + size) buffer, htake, hdrop,
      List.take_append, List.take_of_length_le (by rw [List.length_cons]; exact Nat.le_add_right _ _)]
    simp [cellDataOffset]
  have hprefix := length_addressPrefix wc haddress
  have hdataLength : (final.data.take size).length = size := by
    rw [List.length_take]
    omega
  have hbytes' : (RawCell.mk c.d1 d2 (final.data.take size) c.refs (hdataLength.trans hsize.symm)
      c.refs_length).bytes ++ tail = buffer := by
    rw [hfinal]
    simp [RawCell.bytes]
  refine ⟨{ cell with cellBegin := some buffer },
    ⟨c.d1, d2, final.data.take size, c.refs, hdataLength.trans hsize.symm, c.refs_length⟩, tail, ?_,
    ⟨congrArg some hbytes'.symm, hc.2⟩, ?_, rfl, rfl, rfl, hdataLength, ?_⟩
  · rw [hcell, hbuffer', ok_bind]
    rfl
  · rw [hbytes', hsame, List.length_append, hlength]
    rfl
  · obtain ⟨rest, hbits⟩ := hwritten.bits
    have hmod : (addressPrefix wc address ++ Bits.ofBytes c.data).length % 8 = 3 := by
      rw [List.length_append, hprefix, Bits.length_ofBytes]
      omega
    rw [hmod] at hbits
    rw [Bits.ofBytes_take, hbits, List.take_append_of_le_length]
    rw [List.length_append, List.length_append, hprefix, Bits.length_ofBytes, List.length_replicate]
    omega

end

end EverscaleLedger.Properties
