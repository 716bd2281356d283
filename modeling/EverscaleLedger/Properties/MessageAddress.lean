import EverscaleLedger.Properties.BitReaders

/-! Addresses in messages: the encodings that there are, and which of them
`deserialize_address` reads as what they say. -/
namespace EverscaleLedger.Properties

open Library Source Slice

/-- The optional anycast part of an address: a depth of one to thirty, and as many
bits of a rewriting. -/
inductive Anycast : List Bool → Prop
  | absent : Anycast [false]
  | present (depth path : List Bool) (hdepth : depth.length = 5)
      (hpath : path.length = Bits.number depth) (hpos : 1 ≤ path.length) (hmax : path.length ≤ 30) :
      Anycast (true :: (depth ++ path))

/-- An internal address, with the workchain and account that it names. -/
inductive InternalAddress : List Bool → Option (UInt8 × List UInt8) → Prop
  | none : InternalAddress [false, false] none
  | std (anycast : List Bool) (wc : UInt8) (account : List UInt8) (hanycast : Anycast anycast)
      (haccount : account.length = addressLength) :
      InternalAddress ([true, false] ++ (anycast ++ (Bits.ofByte wc ++ Bits.ofBytes account)))
        (some (wc, account))

/-- The tag of an address without anycast part. -/
def stdTag : List Bool := [true, false, false]

def anycastTag : List Bool := [true, false, true]

section

variable {slice next : SliceData} {wc wc' : UInt8} {address address' : List UInt8}

/-- The bits that were consumed. -/
def consumed (slice next : SliceData) : List Bool :=
  bitsAt slice slice.dataWindowStart (next.dataWindowStart - slice.dataWindowStart)

/-- What a successful read of an address has done. -/
theorem deserializeAddress_cases (h : Sound slice)
    (hread : deserializeAddress slice wc address = .ok (next, wc', address')) :
    (bitsAt slice slice.dataWindowStart 2 = [false, false] ∧
      next = movedTo slice (slice.dataWindowStart + 2) ∧ wc' = wc ∧ address' = address) ∨
    (bitsAt slice slice.dataWindowStart 2 = [true, false] ∧
      slice.dataWindowStart + 267 ≤ slice.dataWindowEnd ∧
      next = movedTo slice (slice.dataWindowStart + 267) ∧
      wc' = Bits.toByte (bitsAt slice (slice.dataWindowStart + 3) 8) ∧
      address' = Bits.pack (bitsAt slice (slice.dataWindowStart + 11) 256)) := by
  have hsteps := hread
  simp only [deserializeAddress, bind_eq_ok, validate_eq_ok] at hsteps
  obtain ⟨⟨kind, s1⟩, hkind, _, hvalid, hsteps⟩ := hsteps
  have hend := (getNextInt_ok hkind).2.2
  rw [getNextInt_eq h (by decide) hend] at hkind
  obtain ⟨rfl, rfl⟩ := Prod.mk.inj (Except.ok.inj hkind)
  have hlength := h.length_bitsAt hend
  obtain hnone | hstd := hvalid
  · have htag : bitsAt slice slice.dataWindowStart 2 = [false, false] :=
      Bits.number_inj hlength hnone
    rw [deserializeAddress_none h hend htag] at hread
    simp only [Except.ok.injEq, Prod.mk.injEq] at hread
    exact Or.inl ⟨htag, hread.1.symm, hread.2.1.symm, hread.2.2.symm⟩
  · have htag : bitsAt slice slice.dataWindowStart 2 = [true, false] :=
      Bits.number_inj hlength hstd
    simp only at hstd hsteps
    rw [if_pos hstd] at hsteps
    simp only [bind_eq_ok] at hsteps
    obtain ⟨⟨_, s2⟩, hbit, ⟨_, s3⟩, hbyte, _, _, s4, hmove, _⟩ := hsteps
    obtain ⟨rfl, -⟩ := getNextBit_ok hbit
    obtain rfl := getNextByte_ok hbyte
    have hend' := (moveBy_ok hmove).2
    simp only [movedTo_movedTo, movedTo_start, movedTo_end, addressLength] at hend'
    rw [deserializeAddress_std h (by omega) htag] at hread
    simp only [Except.ok.injEq, Prod.mk.injEq] at hread
    exact Or.inr ⟨htag, by omega, hread.1.symm, hread.2.1.symm, hread.2.2.symm⟩

/-- A tag, one bit, a workchain and an account are an address exactly when the bit
says that there is no anycast part. -/
theorem internalAddress_iff {bits : List Bool} {anycast : Bool} {said : Option (UInt8 × List UInt8)}
    {workchain account : List Bool} (hworkchain : workchain.length = 8)
    (haccount : account.length = 256)
    (hbits : bits = [true, false, anycast] ++ workchain ++ account) :
    InternalAddress bits said ↔
      anycast = false ∧ said = some (Bits.toByte workchain, Bits.pack account) := by
  have hlength : bits.length = 267 := by
    rw [hbits, List.length_append, List.length_append, hworkchain, haccount]
    rfl
  constructor
  · intro h
    generalize hsame : bits = consumed at h
    cases h with
    | none =>
      rw [hsame] at hlength
      cases hlength
    | std part wc account' hanycast haccount' =>
      rw [hbits] at hsame
      cases hanycast with
      | absent =>
        simp only [List.cons_append, List.nil_append, List.cons.injEq, true_and] at hsame
        obtain ⟨hfalse, hrest⟩ := hsame
        obtain ⟨hwc, hbytes⟩ := List.append_inj hrest (by rw [hworkchain, Bits.length_ofByte])
        refine ⟨hfalse, ?_⟩
        rw [hwc, hbytes, Bits.toByte_ofByte, Bits.pack_ofBytes]
      | present depth path hdepth hpath hpos hmax =>
        have hsize := congrArg List.length hsame
        rw [← hbits, hlength] at hsize
        simp only [List.length_append, List.length_cons, List.length_nil, Bits.length_ofByte,
          Bits.length_ofBytes, haccount', addressLength, hdepth] at hsize
        omega
  · rintro ⟨rfl, rfl⟩
    have haddress := InternalAddress.std [false] (Bits.toByte workchain) (Bits.pack account)
      Anycast.absent (by rw [Bits.length_pack, haccount]; rfl)
    rw [Bits.ofByte_toByte hworkchain, Bits.ofBytes_pack (by rw [haccount])] at haddress
    rw [hbits]
    exact haddress

/-- The 267 bits behind a tag of an address say what the fields in them say, if their
anycast bit does not stand in the way. -/
theorem consumed_std (h : Sound slice) (hend : slice.dataWindowStart + 267 ≤ slice.dataWindowEnd)
    (htag : bitsAt slice slice.dataWindowStart 2 = [true, false]) :
    ∃ anycast, bitsAt slice slice.dataWindowStart 3 = [true, false, anycast] ∧
      ∀ said, InternalAddress (bitsAt slice slice.dataWindowStart 267) said ↔ anycast = false ∧
        said = some (Bits.toByte (bitsAt slice (slice.dataWindowStart + 3) 8),
          Bits.pack (bitsAt slice (slice.dataWindowStart + 11) 256)) := by
  obtain ⟨anycast, hanycast⟩ := List.length_eq_one_iff.mp (h.length_bitsAt
    (show slice.dataWindowStart + 2 + 1 ≤ slice.dataWindowEnd by omega))
  have hthree : bitsAt slice slice.dataWindowStart 3 = [true, false, anycast] := by
    rw [show 3 = 2 + 1 from rfl, bitsAt_add, htag, hanycast]
    rfl
  have hworkchain := h.length_bitsAt (show slice.dataWindowStart + 3 + 8 ≤ slice.dataWindowEnd by
    omega)
  have haccount := h.length_bitsAt (show slice.dataWindowStart + 11 + 256 ≤ slice.dataWindowEnd by
    omega)
  have hall : bitsAt slice slice.dataWindowStart 267 = [true, false, anycast] ++
      bitsAt slice (slice.dataWindowStart + 3) 8 ++ bitsAt slice (slice.dataWindowStart + 11) 256 := by
    rw [show 267 = 3 + (8 + 256) from rfl, bitsAt_add, bitsAt_add, hthree, Nat.add_assoc,
      List.append_assoc]
  exact ⟨anycast, hthree, fun said => internalAddress_iff hworkchain haccount hall⟩

/-- The bits that were read are an address, and the outputs are what it says. -/
def ReadsAddress (slice next : SliceData) (before after : UInt8 × List UInt8) : Prop :=
  ∃ said, InternalAddress (consumed slice next) said ∧ after = said.getD before

/-- An address is read as what it says unless it has an anycast part. -/
theorem readsAddress_iff (h : Sound slice)
    (hread : deserializeAddress slice wc address = .ok (next, wc', address')) :
    ReadsAddress slice next (wc, address) (wc', address') ↔
      bitsAt slice slice.dataWindowStart 3 ≠ anycastTag := by
  unfold ReadsAddress consumed
  obtain ⟨htag, rfl, rfl, rfl⟩ | ⟨htag, hend, rfl, rfl, rfl⟩ := deserializeAddress_cases h hread
  · rw [movedTo_start, Nat.add_sub_cancel_left, htag]
    refine iff_of_true ⟨none, InternalAddress.none, rfl⟩ fun hthree => ?_
    rw [show 3 = 2 + 1 from rfl, bitsAt_add, htag] at hthree
    cases hthree
  · obtain ⟨anycast, hthree, hmeans⟩ := consumed_std h hend htag
    rw [movedTo_start, Nat.add_sub_cancel_left, hthree]
    simp only [hmeans]
    cases anycast with
    | false => exact iff_of_true ⟨_, ⟨rfl, rfl⟩, rfl⟩ (by decide)
    | true =>
      refine iff_of_false ?_ fun hne => hne rfl
      rintro ⟨said, ⟨hfalse, -⟩, -⟩
      cases hfalse

/-- It is an address with workchain and account exactly when it has the tag of one. -/
theorem internalAddress_consumed_iff (h : Sound slice)
    (hread : deserializeAddress slice wc address = .ok (next, wc', address')) :
    InternalAddress (consumed slice next) (some (wc', address')) ↔
      bitsAt slice slice.dataWindowStart 3 = stdTag := by
  unfold consumed
  obtain ⟨htag, rfl, rfl, rfl⟩ | ⟨htag, hend, rfl, rfl, rfl⟩ := deserializeAddress_cases h hread
  · rw [movedTo_start, Nat.add_sub_cancel_left, htag]
    refine iff_of_false (fun haddress => ?_) fun hthree => ?_
    · generalize hbits : [false, false] = bits at haddress
      cases haddress
      cases hbits
    · rw [show 3 = 2 + 1 from rfl, bitsAt_add, htag] at hthree
      cases hthree
  · obtain ⟨anycast, hthree, hmeans⟩ := consumed_std h hend htag
    rw [movedTo_start, Nat.add_sub_cancel_left, hthree, hmeans]
    cases anycast <;> simp [stdTag]

end

end EverscaleLedger.Properties
