import EverscaleLedger.Properties.Reading

/-! The cell that `prepend_address_to_cell` puts in place of the root: it keeps the
first descriptor byte and the references of the received one. -/
namespace EverscaleLedger.Properties

open Library Source

theorem length_store {object result : List UInt8} {index : Nat} {value : UInt8}
    (h : store object index value = .ok result) : result.length = object.length := by
  obtain ⟨-, rfl⟩ := store_eq_ok.mp h
  exact List.length_set

theorem length_storeMany {object block result : List UInt8} {start : Nat}
    (h : storeMany object start block = .ok result) : result.length = object.length := by
  obtain ⟨hle, rfl⟩ := storeMany_eq_ok.mp h
  simp only [List.length_append, List.length_take, List.length_drop]
  omega

theorem appendBytes_length {input : List UInt8} {appendTag : Bool}
    {shift firstDataByte bytes count j prev bits total : Nat} {slice next : SliceData}
    (h : SliceData.appendBytes input appendTag shift firstDataByte bytes count j prev bits slice =
      .ok (total, next)) : next.data.length = slice.data.length := by
  induction count generalizing j prev bits slice with
  | zero =>
    rw [SliceData.appendBytes, pure_eq_ok, Prod.mk.injEq] at h
    rw [h.2]
  | succ count ih =>
    simp only [SliceData.appendBytes, bind_eq_ok] at h
    obtain ⟨_, _, byte, _, first, _, data, hdata, h⟩ := h
    split at h
    · simp only [bind_eq_ok] at h
      obtain ⟨last, hlast, h⟩ := h
      rw [ih h, length_store hlast, length_store hdata]
    · rw [ih h, length_store hdata]

theorem append_length {slice next : SliceData} {input : List UInt8} {bits : Nat}
    {appendTag : Bool} (h : slice.append input bits appendTag = .ok next) :
    next.data.length = slice.data.length := by
  simp only [SliceData.append, bind_eq_ok] at h
  obtain ⟨_, _, h⟩ := h
  split at h
  · simp only [bind_eq_ok, pure_eq_ok] at h
    obtain ⟨_, _, data, hdata, rfl⟩ := h
    exact length_storeMany hdata
  · simp only [bind_eq_ok, pure_eq_ok] at h
    obtain ⟨⟨total, middle⟩, hbytes, rfl⟩ := h
    exact (appendBytes_length hbytes : middle.data.length = _)

theorem appendBytes_bits {input : List UInt8} {shift firstDataByte bytes count j prev bits total : Nat}
    {slice next : SliceData}
    (h : SliceData.appendBytes input false shift firstDataByte bytes count j prev bits slice =
      .ok (total, next)) : total = bits := by
  induction count generalizing j prev slice with
  | zero =>
    rw [SliceData.appendBytes, pure_eq_ok, Prod.mk.injEq] at h
    exact h.1.symm
  | succ count ih =>
    simp only [SliceData.appendBytes, bind_eq_ok] at h
    obtain ⟨_, _, byte, _, first, _, data, _, h⟩ := h
    split at h
    · simp only [bind_eq_ok] at h
      obtain ⟨last, _, h⟩ := h
      exact ih h
    · exact ih h

theorem append_window {slice next : SliceData} {input : List UInt8} {bits : Nat}
    (h : slice.append input bits false = .ok next) :
    next.dataWindowStart = (slice.dataWindowStart + bits) % 2 ^ 16 := by
  simp only [SliceData.append, bind_eq_ok] at h
  obtain ⟨_, _, h⟩ := h
  split at h
  · simp only [bind_eq_ok, pure_eq_ok] at h
    obtain ⟨_, _, data, _, rfl⟩ := h
    rfl
  · simp only [bind_eq_ok, pure_eq_ok] at h
    obtain ⟨⟨total, middle⟩, hbytes, rfl⟩ := h
    rw [appendBytes_bits hbytes]

theorem load_append {data : List UInt8} (rest : List UInt8) {index : Nat}
    (h : index < data.length) : load (data ++ rest) index = load data index := by
  unfold load readAt
  rw [List.getElem?_append_left h]

/-- The byte loop reads the bytes it was told about only. -/
theorem appendBytes_append {data : List UInt8} (rest : List UInt8) {appendTag : Bool}
    {shift firstDataByte count j prev bits : Nat} {slice : SliceData}
    (h : j + count ≤ data.length) :
    SliceData.appendBytes (data ++ rest) appendTag shift firstDataByte data.length count j prev
        bits slice =
      SliceData.appendBytes data appendTag shift firstDataByte data.length count j prev bits
        slice := by
  induction count generalizing j prev bits slice with
  | zero => rfl
  | succ count ih =>
    simp only [SliceData.appendBytes, load_append rest (show j < data.length by omega)]
    refine bind_congr fun _ => bind_congr fun byte => bind_congr fun first =>
      bind_congr fun data' => ?_
    split
    · exact bind_congr fun last => ih (by omega)
    · exact ih (by omega)

theorem append_append {slice : SliceData} {data : List UInt8} (rest : List UInt8)
    {appendTag : Bool} (hne : data ≠ []) (hlength : data.length < 256)
    (hshift : slice.dataWindowStart % 8 ≠ 0) :
    slice.append (data ++ rest) (data.length * 8) appendTag =
      slice.append data (data.length * 8) appendTag := by
  have hbytes : data.length * 8 / 8 % 256 = data.length := by omega
  have hpos : data.length ≠ 0 := fun h => hne (List.eq_nil_of_length_eq_zero h)
  unfold SliceData.append
  simp only [hbytes]
  rw [if_neg (by omega), if_neg (by omega), appendBytes_append rest (by omega)]

/-- The reference loop writes the references one after the other and nothing else. -/
theorem copyRefs_ok {refs rest : List UInt8} {start child : Nat} {buffer result : List UInt8}
    (pending : List UInt8) (hrefs : refs.drop child = pending ++ rest)
    (h : copyRefs refs start pending.length child buffer = .ok result) :
    result.length = buffer.length ∧
      result.take (start + child) = buffer.take (start + child) ∧
      ∃ tail, result.drop (start + child) = pending ++ tail := by
  induction pending generalizing child buffer with
  | nil =>
    rw [List.length_nil, copyRefs, pure_eq_ok] at h
    subst h
    exact ⟨rfl, rfl, _, rfl⟩
  | cons r pending ih =>
    simp only [List.length_cons, copyRefs, bind_eq_ok, load_eq_ok] at h
    obtain ⟨ref, hload, next, hstore, h⟩ := h
    obtain ⟨hfirst, hnext⟩ := drop_eq_cons hrefs
    have href : ref = r := Option.some.inj (hload.symm.trans hfirst)
    obtain ⟨hlength, htake, tail, hdrop⟩ := ih hnext h
    obtain ⟨hindex, rfl⟩ := store_eq_ok.mp hstore
    rw [← Nat.add_assoc] at htake hdrop
    refine ⟨by rw [hlength, List.length_set], ?_, tail, ?_⟩
    · have hle : start + child ≤ start + child + 1 := Nat.le_succ _
      rw [← Nat.min_eq_left hle, ← List.take_take, htake, List.take_take, Nat.min_eq_left hle,
        List.take_set_of_le (Nat.le_refl _)]
    · have hresult : result[start + child]? = some ref := by
        rw [← List.getElem?_take_of_lt (Nat.lt_succ_self _), htake,
          List.getElem?_take_of_lt (Nat.lt_succ_self _), List.getElem?_set_self hindex]
      obtain ⟨hlt, hvalue⟩ := List.getElem?_eq_some_iff.mp hresult
      rw [List.drop_eq_getElem_cons hlt, hvalue, hdrop, href]
      rfl

theorem copyRefs_exists {refs rest : List UInt8} {start child : Nat} {buffer : List UInt8}
    (pending : List UInt8) (hrefs : refs.drop child = pending ++ rest)
    (hbound : pending = [] ∨ start + child + pending.length ≤ buffer.length) :
    ∃ result, copyRefs refs start pending.length child buffer = .ok result := by
  induction pending generalizing child buffer with
  | nil => exact ⟨buffer, rfl⟩
  | cons r pending ih =>
    obtain ⟨hload, hnext⟩ := load_of_drop hrefs
    have hle := hbound.resolve_left (List.cons_ne_nil r pending)
    rw [List.length_cons] at hle
    have hstore : store buffer (start + child) r = .ok (buffer.set (start + child) r) :=
      store_eq_ok.mpr ⟨by omega, rfl⟩
    simp only [List.length_cons, copyRefs, hload, hstore, ok_bind]
    apply ih hnext
    rw [List.length_set]
    exact Or.inr (by omega)

theorem copyRefs_bound {refs : List UInt8} {start count child : Nat} {buffer result : List UInt8}
    (h : copyRefs refs start count child buffer = .ok result) :
    count = 0 ∨ start + child + count ≤ buffer.length := by
  induction count generalizing child buffer with
  | zero => exact Or.inl rfl
  | succ count ih =>
    simp only [copyRefs, bind_eq_ok] at h
    obtain ⟨ref, _, next, hstore, h⟩ := h
    have hlength := length_store hstore
    obtain ⟨hindex, -⟩ := store_eq_ok.mp hstore
    have := ih h
    omega

/-- The bit length of a cell, which its references have no part in. -/
def RawCell.bitLen (c : RawCell) : Outcome Nat :=
  if c.d2.toNat &&& 1 = 0 then pure (c.data.length * 8)
  else Cell.scanTag c.data c.data.length (c.data.length * 8)

theorem scanTag_append {data : List UInt8} (rest : List UInt8) {count bitLen : Nat}
    (h : count ≤ data.length) :
    Cell.scanTag (data ++ rest) count bitLen = Cell.scanTag data count bitLen := by
  induction count generalizing bitLen with
  | zero => rfl
  | succ count ih =>
    simp only [Cell.scanTag, load_append rest (show count < data.length by omega)]
    apply bind_congr
    intro byte
    split
    · exact ih (by omega)
    · rfl

theorem Holds.bitLen {cell : Cell} {c : RawCell} {rest : List UInt8} (h : Holds cell c rest) :
    cell.bitLen = c.bitLen := by
  unfold Cell.bitLen RawCell.bitLen
  rw [h.getDataSize, ok_bind, h.getD2, ok_bind]
  split
  · rfl
  · rw [h.getData, ok_bind, scanTag_append _ (Nat.le_refl _)]

/-- The slice over the buffer, with the address and the data written to it. -/
def prependedSlice (cellBuffer : List UInt8) (wc : UInt8) (address data : List UInt8) :
    Outcome SliceData := do
  let slice := SliceData.init (cellBuffer.drop cellDataOffset) cellBufferSize
  let slice ← slice.append [0x80] 3 false
  let slice ← slice.append [wc] 8 false
  let slice ← slice.append address (addressLength * 8) false
  slice.append data (data.length * 8) false

/-- The second descriptor byte and the data of the cell that replaces a root. -/
def prependedLabel (cellBuffer : List UInt8) (wc : UInt8) (address : List UInt8) (c : RawCell) :
    Outcome (UInt8 × List UInt8) := do
  let bitLen ← c.bitLen
  let d2 := d2OfBitLen (bitLen + 267)
  let slice ← prependedSlice cellBuffer wc address c.data
  pure (d2, slice.data.take (dataSizeOf d2))

theorem prependedSlice_eq_ok {cellBuffer address data : List UInt8} {wc : UInt8}
    {final : SliceData} : prependedSlice cellBuffer wc address data = .ok final ↔
      ∃ s1, (SliceData.init (cellBuffer.drop cellDataOffset) cellBufferSize).append [0x80] 3 false =
        .ok s1 ∧ ∃ s2, s1.append [wc] 8 false = .ok s2 ∧
        ∃ s3, s2.append address (addressLength * 8) false = .ok s3 ∧
          s3.append data (data.length * 8) false = .ok final := by
  simp only [prependedSlice, bind_eq_ok]

/-- The data is appended off a byte boundary. -/
theorem prepended_window {slice s1 s2 s3 : SliceData} {wc : UInt8} {address : List UInt8}
    (hstart : slice.dataWindowStart = 0) (h1 : slice.append [0x80] 3 false = .ok s1)
    (h2 : s1.append [wc] 8 false = .ok s2)
    (h3 : s2.append address (addressLength * 8) false = .ok s3) :
    s3.dataWindowStart % 8 ≠ 0 := by
  rw [append_window h3, append_window h2, append_window h1, hstart]
  decide

theorem prependAddressToCell_ok {cellBuffer : List UInt8} {cell result : Cell} {c : RawCell}
    {rest : List UInt8} {wc : UInt8} {address : List UInt8} (hc : Holds cell c rest)
    (hbuffer : cellBuffer.length = cellBufferSize)
    (h : prependAddressToCell cellBuffer cell wc address = .ok result) :
    ∃ (root : RawCell) (tail : List UInt8), Holds result root tail ∧ root.d1 = c.d1 ∧
      root.refs = c.refs ∧
      (c.data ≠ [] → prependedLabel cellBuffer wc address c = .ok (root.d2, root.data)) ∧
      (c.refs = [] ∨ cellDataOffset + dataSizeOf root.d2 + c.refs.length ≤ cellBufferSize) := by
  simp only [prependAddressToCell, hc.getD1, hc.getData, hc.getDataSize, hc.getRefs, hc.bitLen,
    bind_eq_ok, pure_eq_ok, Except.ok.injEq, exists_eq_left', validate_eq_ok] at h
  obtain ⟨bitLen, hbitLen, b1, h1, b2, h2, s1, hs1, s2, hs2, s3, hs3, s4, hs4, _, _, final, hcopy,
    rfl⟩ := h
  generalize hd2 : d2OfBitLen (bitLen + 267) = d2 at h2 hcopy
  obtain ⟨hdescriptors, hdrop⟩ : b2.take cellDataOffset = [c.d1, d2] ∧
      b2.drop cellDataOffset = cellBuffer.drop cellDataOffset := by
    rw [store_eq_ok] at h1 h2
    obtain ⟨-, rfl⟩ := h1
    obtain ⟨-, rfl⟩ := h2
    rcases cellBuffer with _ | ⟨x, _ | ⟨y, buffer⟩⟩
    · cases hbuffer
    · cases hbuffer
    · exact ⟨rfl, rfl⟩
  rw [hdrop] at hs1
  have hdata : s4.data.length = 128 := by
    rw [append_length hs4, append_length hs3, append_length hs2, append_length hs1]
    change ((cellBuffer.drop cellDataOffset).take cellBufferSize).length = 128
    rw [List.length_take, List.length_drop, hbuffer]
    decide
  have hsize : dataSizeOf d2 ≤ 128 := by
    rw [dataSizeOf, Nat.shiftRight_eq_div_pow]
    have := d2.toNat_lt
    split <;> omega
  have hpointer : (c.refs ++ rest).drop 0 = c.refs ++ rest := rfl
  obtain ⟨hlength, htake, tail, hrefs⟩ := copyRefs_ok c.refs hpointer hcopy
  rw [Nat.add_zero] at htake hrefs
  refine ⟨⟨c.d1, d2, s4.data.take (dataSizeOf d2), c.refs, ?_, c.refs_length⟩, tail, ⟨?_, hc.2⟩,
    rfl, rfl, fun hne => ?_, ?_⟩
  · rw [List.length_take]
    omega
  · apply congrArg some
    rw [← List.take_append_drop (cellDataOffset + dataSizeOf d2) final, htake, hrefs, hdescriptors]
    simp [RawCell.bytes, cellDataOffset, Nat.add_comm 2]
  · have hshift := prepended_window rfl hs1 hs2 hs3
    have hle := c.length_data_le
    rw [append_append _ hne (by omega) hshift] at hs4
    simp only [prependedLabel, bind_eq_ok, pure_eq_ok]
    exact ⟨bitLen, hbitLen, s4, prependedSlice_eq_ok.mpr ⟨s1, hs1, s2, hs2, s3, hs3, hs4⟩, by rw [hd2]⟩
  · obtain hnil | hbound := copyRefs_bound hcopy
    · exact Or.inl (List.eq_nil_of_length_eq_zero hnil)
    · rw [hdescriptors, List.length_append, hdata] at hbound
      exact Or.inr (by simpa [cellBufferSize] using hbound)

/-- The rewriting succeeds on every root with the same label and room for its references. -/
theorem prependAddressToCell_exists {cellBuffer : List UInt8} {cell : Cell} {c : RawCell}
    {rest : List UInt8} {wc : UInt8} {address : List UInt8} {d2 : UInt8} {data : List UInt8}
    (hc : Holds cell c rest) (hbuffer : cellBuffer.length = cellBufferSize) (hne : c.data ≠ [])
    (hlabel : prependedLabel cellBuffer wc address c = .ok (d2, data))
    (hrefs : c.refs.length ≤ maxReferencesCount)
    (hbound : c.refs = [] ∨ cellDataOffset + dataSizeOf d2 + c.refs.length ≤ cellBufferSize) :
    ∃ result, prependAddressToCell cellBuffer cell wc address = .ok result := by
  simp only [prependedLabel, bind_eq_ok, pure_eq_ok, Prod.mk.injEq] at hlabel
  obtain ⟨bitLen, hbitLen, s4, hslice, rfl, -⟩ := hlabel
  obtain ⟨s1, hs1, s2, hs2, s3, hs3, hs4⟩ := prependedSlice_eq_ok.mp hslice
  have hshift := prepended_window rfl hs1 hs2 hs3
  have hle := c.length_data_le
  rw [← append_append (c.refs ++ rest) hne (by omega) hshift] at hs4
  rcases cellBuffer with _ | ⟨x, _ | ⟨y, buffer⟩⟩
  · cases hbuffer
  · cases hbuffer
  have hstore : ∀ value, store (x :: y :: buffer) 0 value = .ok (value :: y :: buffer) :=
    fun value => store_eq_ok.mpr ⟨Nat.succ_pos _, rfl⟩
  have hstore' : ∀ first value, store (first :: y :: buffer) 1 value =
      .ok (first :: value :: buffer) :=
    fun first value => store_eq_ok.mpr ⟨Nat.succ_lt_succ (Nat.succ_pos _), rfl⟩
  have hdata : s4.data.length = 128 := by
    rw [append_length hs4, append_length hs3, append_length hs2, append_length hs1]
    change ((x :: y :: buffer).drop cellDataOffset |>.take cellBufferSize).length = 128
    rw [List.length_take, List.length_drop, hbuffer]
    decide
  simp only [prependAddressToCell, hc.getD1, hc.getData, hc.getDataSize, hc.getRefs, hc.bitLen,
    hbitLen, ok_bind, hstore, hstore']
  simp only [cellDataOffset, List.drop_succ_cons, List.drop_zero] at hs1 ⊢
  rw [hs1, ok_bind, hs2, ok_bind, hs3, ok_bind, hs4, ok_bind, validate_of_true hrefs, ok_bind]
  obtain ⟨final, hfinal⟩ : ∃ final, copyRefs (c.refs ++ rest)
      (2 + dataSizeOf (d2OfBitLen (bitLen + 267))) c.refs.length 0
      ((c.d1 :: d2OfBitLen (bitLen + 267) :: buffer).take 2 ++ s4.data) = .ok final := by
    apply copyRefs_exists c.refs rfl
    rw [List.length_append, hdata]
    exact hbound.imp_right fun hle => by simpa [cellBufferSize, cellDataOffset] using hle
  rw [hfinal, ok_bind]
  exact ⟨_, rfl⟩

end EverscaleLedger.Properties
