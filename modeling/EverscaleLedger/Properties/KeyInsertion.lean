import EverscaleLedger.Properties.Prefixing
import EverscaleLedger.Source.Contract

/-! `SliceData_append` with a completion tag: the input goes behind the bits that are
there, and the tag behind the input. With it a public key is put in its cell. -/
namespace EverscaleLedger.Properties

open Library Source

/-- The last byte with a one behind the bits that were spilled to it. -/
def taggedByte (shift : Nat) (spilled : UInt8) : UInt8 :=
  UInt8.ofNat (((spilled.toNat >>> (7 - shift)) ||| 1) <<< (7 - shift))

/-- The loop with a tag does what it does without, but for the last byte. -/
theorem appendBytes_tag {input : List UInt8} {shift first count j prev bits total : Nat}
    {slice next : SliceData} (hcount : 0 < count) (hinput : j + count = input.length)
    (h : SliceData.appendBytes input false shift first input.length count j prev bits slice =
      .ok (total, next)) :
    ∃ spilled, next.data[first + input.length]? = some spilled ∧
      SliceData.appendBytes input true shift first input.length count j prev bits slice =
        .ok (bits + (8 - shift), { next with
          data := next.data.set (first + input.length) (taggedByte shift spilled) }) := by
  induction count generalizing j prev slice with
  | zero => exact absurd hcount (Nat.lt_irrefl 0)
  | succ count ih =>
    simp only [SliceData.appendBytes, bind_eq_ok] at h ⊢
    obtain ⟨_, hroom, byte, hbyte, old, hold, data, hstored, h⟩ := h
    split at h
    next hlast =>
      obtain rfl : count = 0 := by omega
      simp only [Bool.false_eq_true, if_false, SliceData.appendBytes, bind_eq_ok, store_eq_ok,
        pure_eq_ok, Prod.mk.injEq] at h
      obtain ⟨data', ⟨hlt, rfl⟩, -, rfl⟩ := h
      have hend : first + j + 1 = first + input.length := by omega
      rw [hend] at hlt ⊢
      refine ⟨_, List.getElem?_set_self hlt, (), hroom, byte, hbyte, old, hold, data, hstored, ?_⟩
      rw [if_pos hlast]
      simp only [if_true, SliceData.appendBytes, store_eq_ok.mpr ⟨hlt, rfl⟩, ok_bind,
        List.set_set]
      rw [taggedByte, UInt8.toNat_ofNat', Nat.mod_eq_of_lt (Nat.mod_lt _ (by decide))]
      rfl
    next hmore =>
      obtain ⟨spilled, hspilled, htagged⟩ := ih (by omega) (by omega) h
      refine ⟨spilled, hspilled, (), hroom, byte, hbyte, old, hold, data, hstored, ?_⟩
      rw [if_neg hmore]
      exact htagged

theorem ofByte_taggedByte {shift : Nat} {spilled : UInt8} {high : List Bool} (hshift : shift < 8)
    (hhigh : high.length = shift)
    (hspilled : Bits.ofByte spilled = high ++ List.replicate (8 - shift) false) :
    Bits.ofByte (taggedByte shift spilled) = high ++ true :: List.replicate (7 - shift) false := by
  have hmoved : Bits.ofNat 8 (spilled.toNat >>> (7 - shift)) =
      (List.replicate (7 - shift) false ++ high) ++ List.replicate 1 false := by
    rw [Bits.ofNat_shiftRight spilled.toNat_lt (by omega)]
    change _ ++ (Bits.ofByte spilled).take (8 - (7 - shift)) = _
    rw [hspilled, show 8 - shift = 1 + (7 - shift) by omega, ← List.replicate_append_replicate,
      ← List.append_assoc, List.take_left' (by rw [List.length_append, hhigh, List.length_replicate]; omega),
      List.append_assoc]
  have htag : Bits.ofNat 8 1 =
      List.replicate (List.replicate (7 - shift) false ++ high).length false ++ [true] := by
    rw [List.length_append, List.length_replicate, hhigh, show 7 - shift + shift = 7 by omega]
    rfl
  unfold taggedByte
  rw [Bits.ofByte_ofNat, Bits.ofNat_shiftLeft _ (by omega), Bits.ofNat_lor hmoved htag,
    List.append_assoc, List.drop_left' (by rw [List.length_replicate]), List.append_assoc]
  rfl

/-- The bits after a byte was replaced. -/
theorem ofBytes_set {data : List UInt8} {index : Nat} (h : index < data.length) (byte : UInt8) :
    Bits.ofBytes (data.set index byte) = (Bits.ofBytes data).take (8 * index) ++ Bits.ofByte byte ++
      (Bits.ofBytes data).drop (8 * (index + 1)) := by
  rw [List.set_eq_take_append_cons_drop, if_pos h, Bits.ofBytes_append, Bits.ofBytes_cons,
    Bits.ofBytes_take, Bits.ofBytes_drop, List.append_assoc]

/-- An append with a tag off a byte boundary writes the bits of the input behind those
that are there, and completes the last byte it touches. -/
theorem append_tag {slice : SliceData} {input : List UInt8} (hne : input ≠ [])
    (hshift : slice.dataWindowStart % 8 ≠ 0) (hlength : input.length < 256)
    (hstart : slice.dataWindowStart / 8 < 256) (hremaining : input.length ≤ slice.remainingBits * 8)
    (hroom : slice.dataWindowStart / 8 + input.length < slice.data.length)
    (hsize : slice.data.length ≤ slice.dataSizeBytes) :
    ∃ next, slice.append input (input.length * 8) true = .ok next ∧
      next.data.length = slice.data.length ∧
      Bits.ofBytes next.data = (Bits.ofBytes slice.data).take slice.dataWindowStart ++
        Bits.ofBytes input ++ true :: List.replicate (7 - slice.dataWindowStart % 8) false ++
        (Bits.ofBytes slice.data).drop (8 * (slice.dataWindowStart / 8 + input.length + 1)) := by
  have hpos : 0 < input.length := List.length_pos_iff.mpr hne
  obtain ⟨data, happend, hdata, hbits⟩ :=
    append_bits hne hshift hlength hstart hremaining hroom hsize
  rw [append_off_boundary hne hshift hlength hstart hremaining] at happend
  obtain ⟨⟨total, next⟩, hloop, hnext⟩ := bind_eq_ok.mp happend
  obtain ⟨spilled, hspilled, htagged⟩ := appendBytes_tag hpos (Nat.zero_add _) hloop
  rw [pure_eq_ok, SliceData.mk.injEq] at hnext
  obtain ⟨rfl, -⟩ := hnext
  generalize hshift' : slice.dataWindowStart % 8 = shift at *
  generalize hfirst : slice.dataWindowStart / 8 = first at *
  have hloop' : slice.append input (input.length * 8) true = .ok { next with
      data := next.data.set (first + input.length) (taggedByte shift spilled)
      dataWindowStart := (slice.dataWindowStart + (input.length * 8 + (8 - shift))) % 2 ^ 16 } := by
    have hbytes : input.length * 8 / 8 % 256 = input.length := by omega
    unfold SliceData.append
    simp only [hbytes, hfirst, hshift']
    rw [validate_of_true hremaining, ok_bind, if_neg (by omega), Nat.mod_eq_of_lt hstart, htagged]
    rfl
  refine ⟨_, hloop', by rw [List.length_set, hdata], ?_⟩
  obtain ⟨hindex, hbyte⟩ := List.getElem?_eq_some_iff.mp hspilled
  -- what was written before the last byte, and the bits that it got
  obtain ⟨written, hwritten⟩ : ∃ written, (Bits.ofBytes slice.data).take slice.dataWindowStart ++
      Bits.ofBytes input = written := ⟨_, rfl⟩
  have hwrittenLength : written.length = 8 * (first + input.length) + shift := by
    rw [← hwritten, List.length_append, List.length_take, Bits.length_ofBytes, Bits.length_ofBytes]
    omega
  rw [hwritten] at hbits ⊢
  have hlast : Bits.ofByte spilled =
      written.drop (8 * (first + input.length)) ++ List.replicate (8 - shift) false := by
    have hdrop : Bits.ofByte spilled ++ Bits.ofBytes (next.data.drop (first + input.length + 1)) =
        (written.drop (8 * (first + input.length)) ++ List.replicate (8 - shift) false) ++
          (Bits.ofBytes slice.data).drop (8 * (first + input.length + 1)) := by
      rw [← hbyte, ← Bits.ofBytes_cons, ← List.drop_eq_getElem_cons hindex, Bits.ofBytes_drop, hbits,
        List.append_assoc written, List.drop_append_of_le_length (by omega), List.append_assoc]
    apply List.append_inj_left hdrop
    rw [Bits.length_ofByte, List.length_append, List.length_drop, List.length_replicate]
    omega
  have hhigh : (written.drop (8 * (first + input.length))).length = shift := by
    rw [List.length_drop]
    omega
  have htake : ∀ more, (written ++ List.replicate (8 - shift) false ++ more).take
      (8 * (first + input.length)) = written.take (8 * (first + input.length)) := by
    intro more
    rw [List.append_assoc, List.take_append_of_le_length (by omega)]
  have hdrop : ∀ more, (written ++ List.replicate (8 - shift) false ++ more).drop
      (8 * (first + input.length + 1)) = more := by
    intro more
    apply List.drop_left'
    rw [List.length_append, List.length_replicate]
    omega
  rw [ofBytes_set hindex, hbits, htake, hdrop, ofByte_taggedByte (by omega) hhigh hlast,
    ← List.append_assoc, List.take_append_drop]

/-- The key goes behind the label, whatever the buffer holds there. -/
theorem insertPublicKey_bits {bc : BocContext} (publicKey : Hash)
    (hlength : bc.publicKeyCellData.length = maxPublicKeyCellDataSize)
    (hoff : bc.publicKeyLabelSizeBits % 8 ≠ 0) (hle : bc.publicKeyLabelSizeBits < 32) :
    ∃ data, insertPublicKey bc publicKey = .ok data ∧ data.length = maxPublicKeyCellDataSize ∧
      Bits.ofBytes data = (Bits.ofBytes bc.publicKeyCellData).take bc.publicKeyLabelSizeBits ++
        Bits.ofBytes publicKey.toList ++
        true :: List.replicate (7 - bc.publicKeyLabelSizeBits % 8) false ++
        (Bits.ofBytes bc.publicKeyCellData).drop (8 * (bc.publicKeyLabelSizeBits / 8 + 32 + 1)) := by
  have hkey : publicKey.toList.length = 32 := Vector.length_toList
  have hsize : bc.publicKeyCellData.length = 36 := hlength
  obtain ⟨next, happend, hdata, hbits⟩ := @append_tag
    ⟨bc.publicKeyCellData, bc.publicKeyLabelSizeBits, 288, 36⟩ publicKey.toList
    (by rintro hnil; rw [hnil] at hkey; cases hkey) hoff (by omega) (by simp only; omega)
    (by simp only [SliceData.remainingBits]; omega) (by simp only; omega) (by simp only; omega)
  rw [hkey] at happend hbits
  have hinit : SliceData.init bc.publicKeyCellData maxPublicKeyCellDataSize =
      ⟨bc.publicKeyCellData, 0, 288, 36⟩ := by
    rw [SliceData.init, List.take_of_length_le (Nat.le_of_eq hlength)]
    rfl
  have hmove : SliceData.moveBy ⟨bc.publicKeyCellData, 0, 288, 36⟩ bc.publicKeyLabelSizeBits =
      .ok ⟨bc.publicKeyCellData, bc.publicKeyLabelSizeBits, 288, 36⟩ := by
    unfold SliceData.moveBy
    simp only [Nat.zero_add]
    rw [validate_of_true (by omega)]
    rfl
  refine ⟨next.data, ?_, hdata.trans hlength, hbits⟩
  unfold insertPublicKey
  rw [hinit]
  simp only [hmove, ok_bind]
  change (do
    let slice ← SliceData.append _ publicKey.toList (32 * 8) true
    pure slice.data) = _
  rw [happend]
  rfl

end EverscaleLedger.Properties
