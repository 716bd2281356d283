import EverscaleLedger.Properties.UnreadBits

/-! The parts of a message as bits, and what the decoders of `message.c` make of
each of them, whatever comes behind it. -/
namespace EverscaleLedger.Properties

open Library Source Slice

/-- The address fields that are taken. The bit for an anycast part is skipped. -/
inductive AddressField where
  | none
  | std (anycast : Bool) (wc : UInt8) (account : Hash)
deriving DecidableEq

namespace AddressField

def bits : AddressField → List Bool
  | none => [false, false]
  | std anycast wc account =>
      [true, false, anycast] ++ (Bits.ofByte wc ++ Bits.ofBytes account.toList)

/-- The outputs of the decoder, which keep what they are given without an address. -/
def read (wc : UInt8) (address : List UInt8) : AddressField → UInt8 × List UInt8
  | none => (wc, address)
  | std _ wc account => (wc, account.toList)

end AddressField

theorem Unread.addressField {slice : SliceData} {rest : List Bool} {said : AddressField}
    (h : Unread slice (said.bits ++ rest)) (wc : UInt8) (address : List UInt8) :
    ∃ next, Source.deserializeAddress slice wc address = .ok (next, said.read wc address) ∧
      Unread next rest := by
  have hskip := h.skip
  have hend := h.end_le
  cases said with
  | none => exact ⟨_, deserializeAddress_none h.sound hend h.front, hskip⟩
  | std anycast wc' account =>
    have hlength : (AddressField.std anycast wc' account).bits.length = 267 := by
      simp [AddressField.bits]
    rw [hlength] at hend hskip
    have hfields : Unread slice ([true, false] ++ ([anycast] ++ (Bits.ofByte wc' ++
        (Bits.ofBytes account.toList ++ rest)))) := by
      simpa only [AddressField.bits, List.append_assoc, List.cons_append, List.nil_append] using h
    have hwc := hfields.skip.skip.front
    have haccount := hfields.skip.skip.skip.front
    simp only [movedTo_start, bitsAt_movedTo, List.length_cons, List.length_nil,
      Bits.length_ofByte, Bits.length_ofBytes, Vector.length_toList, Nat.add_assoc] at hwc haccount
    have hread := @deserializeAddress_std slice wc address h.sound hend hfields.front
    rw [hwc, haccount, Bits.toByte_ofByte, Bits.pack_ofBytes] at hread
    exact ⟨_, hread, hskip⟩

/-- The two kinds of internal addresses. -/
inductive MessageAddress where
  | none
  | std (wc : UInt8) (account : Hash)
deriving DecidableEq

namespace MessageAddress

def bits : MessageAddress → List Bool
  | none => [false, false]
  | std wc account => addressPrefix wc account.toList

/-- The outputs of a reader that is given some. -/
def read (wc : UInt8) (address : List UInt8) : MessageAddress → UInt8 × List UInt8
  | none => (wc, address)
  | std wc account => (wc, account.toList)

/-- The field that holds the address. -/
def field : MessageAddress → AddressField
  | none => .none
  | std wc account => .std false wc account

theorem bits_field (said : MessageAddress) : said.field.bits = said.bits := by
  cases said with
  | none => rfl
  | std wc account => simp [field, AddressField.bits, bits, addressPrefix]

theorem read_field (said : MessageAddress) (wc : UInt8) (address : List UInt8) :
    said.field.read wc address = said.read wc address := by
  cases said <;> rfl

theorem length_bits_std (wc : UInt8) (account : Hash) : (std wc account).bits.length = 267 :=
  length_addressPrefix wc (Vector.length_toList ..)

theorem length_bits_le (address : MessageAddress) : address.bits.length ≤ 267 := by
  cases address with
  | none => decide
  | std wc account => exact Nat.le_of_eq (length_bits_std wc account)

end MessageAddress

/-- An amount with the number of its bytes. -/
def grams (value : List UInt8) : List Bool := Bits.ofNat 4 value.length ++ Bits.ofBytes value

theorem no_bytes_lt : 0 < 16 := by decide

/-- The fields of the header of an internal message that the reader goes through. -/
structure HeaderFields where
  ihrDisabled : Bool
  bounce : Bool
  bounced : Bool
  source : AddressField
  recipient : AddressField
  amount : List UInt8
  currencies : Bool
  ihrFee : List UInt8
  fwdFee : List UInt8
  createdLt : UInt64
  createdAt : UInt32
  amount_length : amount.length < 16
  ihrFee_length : ihrFee.length < 16
  fwdFee_length : fwdFee.length < 16

namespace HeaderFields

variable (header : HeaderFields)

def bits : List Bool :=
  [false, header.ihrDisabled, header.bounce, header.bounced] ++ (header.source.bits ++
    (header.recipient.bits ++ (grams header.amount ++ ([header.currencies] ++
      (grams header.ihrFee ++ (grams header.fwdFee ++
        (Bits.ofNat 64 header.createdLt.toNat ++ Bits.ofNat 32 header.createdAt.toNat)))))))

/-- What they say on the screen. Fees are not accepted. -/
def shown (sdk : Sdk) (locals : Locals) (flags : Nat) (ctx : SignTransactionContext)
    (display : Display) : Outcome Display := do
  let (wc, address) := header.recipient.read 0 locals.dstAddress.toList
  let display ← setAmount header.amount header.amount.length flags ctx.decimals ctx.ticker
    (setDstAddress sdk wc address display)
  validate (header.ihrFee.length = 0) .invalidMessage
  validate (header.fwdFee.length = 0) .invalidMessage
  pure display

end HeaderFields

/-- The number of bytes, and the bytes. -/
theorem Unread.grams {slice : SliceData} {value : List UInt8} {rest : List Bool}
    (h : Unread slice (Properties.grams value ++ rest)) (hlength : value.length < 16) :
    Takes (slice.getNextInt 4) value.length (Bits.ofBytes value ++ rest) := by
  unfold Properties.grams at h
  rw [List.append_assoc] at h
  have hread := h.getNextInt (Bits.length_ofNat _ _) (by decide)
  rwa [Bits.number_ofNat, Nat.mod_eq_of_lt (show value.length < 2 ^ 4 from hlength)] at hread

/-- The header is decoded to what it says, and the rest is left as it was. -/
theorem HeaderFields.decodes (header : HeaderFields) {sdk : Sdk} {locals : Locals} {slice : SliceData}
    {flags : Nat} {ctx : SignTransactionContext} {display : Display} {rest : List Bool}
    (h : Unread slice (header.bits ++ rest)) :
    ∃ next, deserializeIntMessageHeader sdk locals slice flags ctx display =
      (do
        let shown ← header.shown sdk locals flags ctx display
        pure (next, shown)) ∧ Unread next rest := by
  have hskip := h.skip
  simp only [HeaderFields.bits, List.append_assoc, List.cons_append, List.nil_append] at h
  obtain ⟨s1, h1, hs1⟩ := h.getNextBit
  obtain ⟨s2, h2, hs2⟩ := hs1.getNextBit
  obtain ⟨s3, h3, hs3⟩ := hs2.getNextBit
  obtain ⟨s4, h4, hs4⟩ := hs3.getNextBit
  obtain ⟨s5, h5, hs5⟩ := hs4.addressField 0 locals.srcAddr.toList
  obtain ⟨s6, h6, hs6⟩ := hs5.addressField 0 locals.dstAddress.toList
  obtain ⟨s7, h7, hs7⟩ := hs6.grams header.amount_length
  obtain ⟨s8, h8, hs8⟩ := hs7.deserializeValue
  obtain ⟨s9, h9, hs9⟩ := hs8.getNextBit
  obtain ⟨s10, h10, hs10⟩ := hs9.grams header.ihrFee_length
  simp only [deserializeIntMessageHeader, HeaderFields.shown, h1, h2, h3, h4, h5, h6, h7, h8, ok_bind,
    Bool.toNat_false, validate_of_true (show True from trivial),
    validate_of_true (show header.amount.length ≤ amountLength from Nat.le_of_lt header.amount_length)]
  cases setAmount header.amount header.amount.length flags ctx.decimals ctx.ticker
      (setDstAddress sdk (header.recipient.read 0 locals.dstAddress.toList).1
        (header.recipient.read 0 locals.dstAddress.toList).2 display) with
  | error e => exact ⟨_, rfl, hskip⟩
  | ok shown =>
    simp only [ok_bind, h9, h10]
    by_cases hihr : header.ihrFee.length = 0
    rotate_left
    · rw [validate, require, if_neg hihr]
      exact ⟨_, rfl, hskip⟩
    rw [List.eq_nil_of_length_eq_zero hihr, Bits.ofBytes_nil, List.nil_append] at hs10
    obtain ⟨s11, h11, hs11⟩ := hs10.grams header.fwdFee_length
    simp only [validate_of_true hihr, ok_bind, h11]
    by_cases hfwd : header.fwdFee.length = 0
    rotate_left
    · rw [validate, require, if_neg hfwd]
      exact ⟨_, rfl, hskip⟩
    rw [List.eq_nil_of_length_eq_zero hfwd, Bits.ofBytes_nil, List.nil_append] at hs11
    obtain ⟨s12, h12, hs12⟩ := hs11.getNextInt (Bits.length_ofNat _ _) (by decide)
    obtain ⟨s13, h13, hs13⟩ := hs12.getNextInt (Bits.length_ofNat _ _) (by decide)
    simp only [validate_of_true hfwd, ok_bind, h12, h13]
    exact ⟨s13, rfl, hs13⟩

/-- The header of an internal message, up to the state that comes with it. -/
structure GiftHeader where
  ihrDisabled : Bool
  bounce : Bool
  bounced : Bool
  source : MessageAddress
  recipient : MessageAddress
  amount : List UInt8
  currencies : Bool
  ihrFee : List UInt8
  fwdFee : List UInt8
  createdLt : UInt64
  createdAt : UInt32
  amount_length : amount.length < 16
  ihrFee_length : ihrFee.length < 16
  fwdFee_length : fwdFee.length < 16

namespace GiftHeader

variable (header : GiftHeader)

def bits : List Bool :=
  [false, header.ihrDisabled, header.bounce, header.bounced] ++ (header.source.bits ++
    (header.recipient.bits ++ (grams header.amount ++ ([header.currencies] ++
      (grams header.ihrFee ++ (grams header.fwdFee ++
        (Bits.ofNat 64 header.createdLt.toNat ++ Bits.ofNat 32 header.createdAt.toNat)))))))

/-- What the header says on the screen. Fees are not accepted. -/
def shown (sdk : Sdk) (locals : Locals) (flags : Nat) (ctx : SignTransactionContext)
    (display : Display) : Outcome Display := do
  let (wc, address) := header.recipient.read 0 locals.dstAddress.toList
  let display ← setAmount header.amount header.amount.length flags ctx.decimals ctx.ticker
    (setDstAddress sdk wc address display)
  validate (header.ihrFee.length = 0) .invalidMessage
  validate (header.fwdFee.length = 0) .invalidMessage
  pure display

def fields : HeaderFields where
  ihrDisabled := header.ihrDisabled
  bounce := header.bounce
  bounced := header.bounced
  source := header.source.field
  recipient := header.recipient.field
  amount := header.amount
  currencies := header.currencies
  ihrFee := header.ihrFee
  fwdFee := header.fwdFee
  createdLt := header.createdLt
  createdAt := header.createdAt
  amount_length := header.amount_length
  ihrFee_length := header.ihrFee_length
  fwdFee_length := header.fwdFee_length

theorem bits_fields : header.fields.bits = header.bits := by
  simp only [fields, HeaderFields.bits, bits, MessageAddress.bits_field]

theorem shown_fields (sdk : Sdk) (locals : Locals) (flags : Nat) (ctx : SignTransactionContext)
    (display : Display) :
    header.fields.shown sdk locals flags ctx display = header.shown sdk locals flags ctx display := by
  unfold HeaderFields.shown shown
  rw [show header.fields.recipient = header.recipient.field from rfl, MessageAddress.read_field]
  rfl

theorem decodes {sdk : Sdk} {locals : Locals} {slice : SliceData} {flags : Nat}
    {ctx : SignTransactionContext} {display : Display} {rest : List Bool}
    (h : Unread slice (header.bits ++ rest)) :
    ∃ next, deserializeIntMessageHeader sdk locals slice flags ctx display =
      (do
        let shown ← header.shown sdk locals flags ctx display
        pure (next, shown)) ∧ Unread next rest := by
  rw [← header.bits_fields] at h
  rw [← header.shown_fields]
  exact header.fields.decodes h

end GiftHeader

theorem length_grams (value : List UInt8) : (grams value).length = 4 + 8 * value.length := by
  rw [grams, List.length_append, Bits.length_ofNat, Bits.length_ofBytes]

theorem GiftHeader.length_bits (header : GiftHeader) : header.bits.length =
    113 + header.source.bits.length + header.recipient.bits.length + 8 * header.amount.length +
      8 * header.ihrFee.length + 8 * header.fwdFee.length := by
  simp only [GiftHeader.bits, List.length_append, List.length_cons, List.length_nil, length_grams,
    Bits.length_ofNat]
  omega

theorem GiftHeader.length_bits_le (header : GiftHeader) : header.bits.length ≤ 1007 := by
  have hsource := header.source.length_bits_le
  have hrecipient := header.recipient.length_bits_le
  have hamount := header.amount_length
  have hihr := header.ihrFee_length
  have hfwd := header.fwdFee_length
  rw [header.length_bits]
  omega

/-! The root of a wallet transfer. -/

def walletV3Bits (expireAt seqno : UInt32) (flags : UInt8) : List Bool :=
  Bits.ofNat 32 walletId ++ (Bits.ofNat 32 expireAt.toNat ++ (Bits.ofNat 32 seqno.toNat ++
    Bits.ofByte flags))

theorem length_walletV3Bits (expireAt seqno : UInt32) (flags : UInt8) :
    (walletV3Bits expireAt seqno flags).length = 104 := by
  simp [walletV3Bits]

theorem Unread.deserializeWalletV3 {slice : SliceData} {expireAt seqno : UInt32} {flags : UInt8}
    (h : Unread slice (walletV3Bits expireAt seqno flags)) :
    ∃ next, Source.deserializeWalletV3 slice = .ok (flags.toNat, next) := by
  unfold walletV3Bits at h
  obtain ⟨s1, h1, hs1⟩ := h.getNextInt (Bits.length_ofNat _ _) (by decide)
  obtain ⟨s2, h2, hs2⟩ := hs1.getNextInt (Bits.length_ofNat _ _) (by decide)
  obtain ⟨s3, h3, hs3⟩ := hs2.getNextInt (Bits.length_ofNat _ _) (by decide)
  rw [← List.append_nil (Bits.ofByte flags)] at hs3
  obtain ⟨s4, h4, hs4⟩ := hs3.getNextByte (Bits.length_ofByte _)
  simp only [Source.deserializeWalletV3, h1, h2, h3, h4, ok_bind, Bits.number_ofByte]
  rw [validate_of_true (show Bits.number (Bits.ofNat 32 walletId) = walletId by decide), ok_bind,
    validate_of_true (show s4.remainingBits = 0 from hs4.remainingBits), ok_bind]
  exact ⟨_, rfl⟩

/-! Function calls. -/

/-- What stands in front of the function id. -/
structure CallHeader where
  publicKey : Option Hash
  time : UInt64
  expire : UInt32

def CallHeader.publicKeyBits (header : CallHeader) : List Bool :=
  match header.publicKey with
  | some key => true :: Bits.ofBytes key.toList
  | none => [false]

def CallHeader.bits (header : CallHeader) (functionId : Nat) : List Bool :=
  header.publicKeyBits ++ (Bits.ofNat 64 header.time.toNat ++
    (Bits.ofNat 32 header.expire.toNat ++ Bits.ofNat 32 functionId))

theorem CallHeader.length_bits (header : CallHeader) (functionId : Nat) :
    129 ≤ (header.bits functionId).length ∧ (header.bits functionId).length ≤ 385 := by
  unfold bits publicKeyBits
  cases header.publicKey <;> simp

theorem Unread.deserializeContractHeader {slice : SliceData} {header : CallHeader}
    {functionId : Nat} {rest : List Bool} (h : Unread slice (header.bits functionId ++ rest))
    (hid : functionId < 2 ^ 32) : Takes (Source.deserializeContractHeader slice) functionId rest := by
  obtain ⟨s2, hkey, hs2⟩ : ∃ next, (do
      let present ← slice.getNextBit
      if present.1 ≠ 0 then present.2.moveBy (publicKeyLength * 8) else pure present.2) = .ok next ∧
      Unread next (Bits.ofNat 64 header.time.toNat ++ (Bits.ofNat 32 header.expire.toNat ++
        (Bits.ofNat 32 functionId ++ rest))) := by
    unfold CallHeader.bits CallHeader.publicKeyBits at h
    cases hpublicKey : header.publicKey with
    | none =>
      simp only [hpublicKey, List.append_assoc, List.cons_append, List.nil_append] at h
      obtain ⟨s1, h1, hs1⟩ := h.getNextBit
      rw [h1, ok_bind]
      exact ⟨s1, rfl, hs1⟩
    | some key =>
      simp only [hpublicKey, List.append_assoc, List.cons_append] at h
      obtain ⟨s1, h1, hs1⟩ := h.getNextBit
      obtain ⟨s2, h2, hs2⟩ := hs1.moveBy
      rw [Bits.length_ofBytes, Vector.length_toList] at h2
      rw [h1, ok_bind]
      exact ⟨s2, h2, hs2⟩
  obtain ⟨⟨bit, s1⟩, h1, h2⟩ := bind_eq_ok.mp hkey
  obtain ⟨s3, h3, hs3⟩ := hs2.getNextInt (Bits.length_ofNat _ _) (by decide)
  obtain ⟨s4, h4, hs4⟩ := hs3.getNextInt (Bits.length_ofNat _ _) (by decide)
  obtain ⟨s5, h5, hs5⟩ := hs4.getNextInt (Bits.length_ofNat _ _) (by decide)
  refine ⟨s5, ?_, hs5⟩
  rw [Bits.number_ofNat, Nat.mod_eq_of_lt hid] at h5
  simp only at h2
  simp only [Source.deserializeContractHeader, h1, ok_bind, h2, h3, h4, h5]

theorem Unread.recipient {slice : SliceData} {recipient : AddressField} {amount : List UInt8}
    {bounce : Bool} {rest : List Bool}
    (h : Unread slice (recipient.bits ++ (Bits.ofBytes amount ++ [bounce]) ++ rest))
    (hamount : amount.length = amountLength) (sdk : Sdk) (locals : Locals) (display : Display) :
    ∃ next, Source.deserializeRecipient sdk locals slice display =
      .ok (next, amount, setDstAddress sdk (recipient.read 0 locals.dstAddress.toList).1
        (recipient.read 0 locals.dstAddress.toList).2 display) ∧ Unread next rest := by
  simp only [List.append_assoc, List.cons_append, List.nil_append] at h
  obtain ⟨s1, h1, hs1⟩ := h.addressField 0 locals.dstAddress.toList
  obtain ⟨s2, h2, hs2⟩ := hs1.deserializeValue
  obtain ⟨s3, h3, hs3⟩ := hs2.getNextBit
  rw [hamount] at h2
  refine ⟨s3, ?_, hs3⟩
  simp only [Source.deserializeRecipient, h1, ok_bind, h2, h3]
  rfl

/-- The arguments that the two transfer functions share. -/
def recipientBits (recipient : MessageAddress) (amount : List UInt8) (bounce : Bool) : List Bool :=
  recipient.bits ++ (Bits.ofBytes amount ++ [bounce])

theorem Unread.deserializeRecipient {slice : SliceData} {recipient : MessageAddress}
    {amount : List UInt8} {bounce : Bool} {rest : List Bool}
    (h : Unread slice (recipientBits recipient amount bounce ++ rest))
    (hamount : amount.length = amountLength) (sdk : Sdk) (locals : Locals) (display : Display) :
    ∃ next, Source.deserializeRecipient sdk locals slice display =
      .ok (next, amount, setDstAddress sdk (recipient.read 0 locals.dstAddress.toList).1
        (recipient.read 0 locals.dstAddress.toList).2 display) ∧ Unread next rest := by
  rw [recipientBits, ← recipient.bits_field] at h
  rw [← recipient.read_field]
  exact h.recipient hamount sdk locals display

end EverscaleLedger.Properties
