import EverscaleLedger.Library.SelfDelimiting
import EverscaleLedger.Properties.MessageAddress
import EverscaleLedger.Properties.TokenStreams

/-! Which bits the decoders of `message.c` take: the fields of messages as values of
their own, and for each decoder that what it took was the bits of such a value. -/
namespace EverscaleLedger.Properties

open Library Source Slice

theorem Takes.unique {α : Type} {result : Outcome (α × SliceData)} {value taken : α} {next : SliceData}
    {rest : List Bool} (h : Takes result value rest) (hread : result = .ok (taken, next)) :
    taken = value ∧ Unread next rest := by
  obtain ⟨_, hresult, hnext⟩ := h
  rw [hresult] at hread
  obtain ⟨rfl, rfl⟩ := Prod.mk.inj (Except.ok.inj hread)
  exact ⟨rfl, hnext⟩

theorem exists_bytes {bytes : List UInt8} {count : Nat} (h : bytes.length = count) :
    ∃ value : Vector UInt8 count, value.toList = bytes :=
  ⟨⟨bytes.toArray, by simp [h]⟩, rfl⟩

theorem exists_front {bits : List Bool} {count : Nat} (h : count ≤ bits.length) :
    ∃ field rest, bits = field ++ rest ∧ field.length = count :=
  ⟨_, _, (List.take_append_drop count bits).symm, List.length_take_of_le h⟩

namespace Unread

variable {slice next : SliceData} {bits : List Bool} {count value : Nat}

theorem front_of_getNextInt (h : Unread slice bits) (hread : slice.getNextInt count = .ok (value, next))
    (hcount : count ≤ 64) :
    ∃ rest, bits = Bits.ofNat count value ++ rest ∧ value < 2 ^ count ∧ Unread next rest := by
  have hle : count ≤ bits.length := Nat.le_of_not_lt fun hshort => h.getNextInt_short hshort hread
  have hlength : (bits.take count).length = count := List.length_take_of_le hle
  obtain ⟨rfl, hnext⟩ := ((h.splitAt count).getNextInt hlength hcount).unique hread
  have hfield := Bits.ofNat_number (bits.take count)
  have hlt := Bits.number_lt (bits.take count)
  rw [hlength] at hfield hlt
  rw [hfield]
  exact ⟨_, (List.take_append_drop count bits).symm, hlt, hnext⟩

theorem front_of_moveBy (h : Unread slice bits) (hmove : slice.moveBy count = .ok next) :
    ∃ field rest, bits = field ++ rest ∧ field.length = count ∧ Unread next rest := by
  obtain ⟨rfl, hend⟩ := moveBy_ok hmove
  have hwindow := h.window
  have hlength : (bits.take count).length = count := List.length_take_of_le (by omega)
  have hnext := (h.splitAt count).skip
  rw [hlength] at hnext
  exact ⟨_, _, (List.take_append_drop count bits).symm, hlength, hnext⟩

theorem front_of_getNextBit (h : Unread slice bits) (hread : slice.getNextBit = .ok (value, next)) :
    ∃ bit rest, bits = bit :: rest ∧ value = bit.toNat ∧ Unread next rest := by
  have hsteps := hread
  simp only [SliceData.getNextBit, bind_eq_ok] at hsteps
  obtain ⟨_, -, _, hmove, -⟩ := hsteps
  obtain ⟨field, rest, rfl, hlength, -⟩ := h.front_of_moveBy hmove
  obtain ⟨bit, rfl⟩ := List.length_eq_one_iff.mp hlength
  obtain ⟨rfl, hnext⟩ := h.getNextBit.unique hread
  exact ⟨bit, rest, rfl, rfl, hnext⟩

theorem front_of_getNextByte (h : Unread slice bits) (hread : slice.getNextByte = .ok (value, next)) :
    ∃ (byte : UInt8) (rest : List Bool),
      bits = Bits.ofByte byte ++ rest ∧ value = byte.toNat ∧ Unread next rest := by
  have hsteps := hread
  simp only [SliceData.getNextByte, bind_eq_ok] at hsteps
  obtain ⟨_, -, _, hmove, -⟩ := hsteps
  obtain ⟨field, rest, rfl, hlength, -⟩ := h.front_of_moveBy hmove
  obtain ⟨rfl, hnext⟩ := (h.getNextByte hlength).unique hread
  refine ⟨Bits.toByte field, rest, ?_, ?_, hnext⟩
  · rw [Bits.ofByte_toByte hlength]
  · rw [← Bits.number_ofByte, Bits.ofByte_toByte hlength]

theorem front_of_deserializeValue {bytes : List UInt8} (h : Unread slice bits)
    (hread : Source.deserializeValue slice count = .ok (next, bytes)) :
    ∃ rest, bits = Bits.ofBytes bytes ++ rest ∧ bytes.length = count ∧ Unread next rest := by
  have hsteps := hread
  simp only [Source.deserializeValue, bind_eq_ok] at hsteps
  obtain ⟨_, -, _, hmove, -⟩ := hsteps
  obtain ⟨field, rest, rfl, hlength, -⟩ := h.front_of_moveBy hmove
  have hpacked : Bits.ofBytes (Bits.pack field) = field := Bits.ofBytes_pack (by omega)
  have hcount : (Bits.pack field).length = count := by rw [Bits.length_pack]; omega
  rw [← hpacked] at h
  obtain ⟨_, hvalue, hnext⟩ := h.deserializeValue
  rw [hcount, hread] at hvalue
  obtain ⟨rfl, rfl⟩ := Prod.mk.inj (Except.ok.inj hvalue)
  exact ⟨rest, by rw [hpacked], hcount, hnext⟩

end Unread

/-! Addresses. -/

namespace Unread

variable {slice next : SliceData} {bits rest : List Bool} {wc wc' : UInt8}
  {address address' : List UInt8}

theorem two_le (h : Unread slice bits)
    (hread : Source.deserializeAddress slice wc address = .ok (next, wc', address')) :
    2 ≤ bits.length := by
  simp only [Source.deserializeAddress, bind_eq_ok] at hread
  obtain ⟨⟨_, _⟩, hkind, -⟩ := hread
  obtain ⟨rest, rfl, -⟩ := h.front_of_getNextInt hkind (by decide)
  simp

theorem of_deserializeAddress (h : Unread slice bits)
    (hread : Source.deserializeAddress slice wc address = .ok (next, wc', address')) :
    ∃ (said : AddressField) (rest : List Bool), bits = said.bits ++ rest ∧
      said.read wc address = (wc', address') ∧ Unread next rest := by
  -- which of the two kinds it is shows in the tag; the value is then read back
  have hsaid : ∃ (said : AddressField) (rest : List Bool), bits = said.bits ++ rest := by
    have hwindow := h.window
    obtain ⟨htag, -⟩ | ⟨htag, hend, -⟩ := deserializeAddress_cases h.sound hread
    · obtain ⟨field, rest, rfl, hfield⟩ := exists_front (h.two_le hread)
      refine ⟨.none, rest, ?_⟩
      rw [show AddressField.none.bits = field from htag.symm.trans (hfield ▸ h.front)]
    · obtain ⟨tag, rest, rfl, htwo⟩ := exists_front (show 2 ≤ bits.length by omega)
      rw [List.length_append, htwo] at hwindow
      obtain ⟨bit, rest, rfl, hbit⟩ := exists_front (show 1 ≤ rest.length by omega)
      rw [List.length_append, hbit] at hwindow
      obtain ⟨wc, rest, rfl, hwc⟩ := exists_front (show 8 ≤ rest.length by omega)
      rw [List.length_append, hwc] at hwindow
      obtain ⟨account, rest, rfl, haccount⟩ := exists_front (show 256 ≤ rest.length by omega)
      obtain ⟨anycast, rfl⟩ := List.length_eq_one_iff.mp hbit
      obtain ⟨packed, hpacked⟩ := exists_bytes (show (Bits.pack account).length = 32 by
        rw [Bits.length_pack, haccount])
      rw [← htwo, h.front] at htag
      refine ⟨.std anycast (Bits.toByte wc) packed, rest, ?_⟩
      rw [AddressField.bits, hpacked, Bits.ofByte_toByte hwc, Bits.ofBytes_pack (by omega), htag]
      simp
  obtain ⟨said, rest, rfl⟩ := hsaid
  obtain ⟨_, hvalue, hnext⟩ := h.addressField wc address
  rw [hread] at hvalue
  obtain ⟨rfl, hpair⟩ := Prod.mk.inj (Except.ok.inj hvalue)
  exact ⟨said, rest, rfl, hpair.symm, hnext⟩

end Unread

/-! The header of an internal message. -/

/-- A header that is taken: it has no fees. -/
structure MessageHeader where
  ihrDisabled : Bool
  bounce : Bool
  bounced : Bool
  source : AddressField
  recipient : AddressField
  amount : List UInt8
  currencies : Bool
  createdLt : UInt64
  createdAt : UInt32
  amount_length : amount.length < 16

namespace MessageHeader

variable (header : MessageHeader)

def bits : List Bool :=
  [false, header.ihrDisabled, header.bounce, header.bounced] ++ (header.source.bits ++
    (header.recipient.bits ++ (grams header.amount ++ ([header.currencies] ++ (grams [] ++
      (grams [] ++ (Bits.ofNat 64 header.createdLt.toNat ++
        Bits.ofNat 32 header.createdAt.toNat)))))))

/-- What it says on the screen. -/
def shown (sdk : Sdk) (locals : Locals) (flags : Nat) (ctx : SignTransactionContext)
    (display : Display) : Outcome Display :=
  let recipient := header.recipient.read 0 locals.dstAddress.toList
  setAmount header.amount header.amount.length flags ctx.decimals ctx.ticker
    (setDstAddress sdk recipient.1 recipient.2 display)

def fields : HeaderFields where
  ihrDisabled := header.ihrDisabled
  bounce := header.bounce
  bounced := header.bounced
  source := header.source
  recipient := header.recipient
  amount := header.amount
  currencies := header.currencies
  ihrFee := []
  fwdFee := []
  createdLt := header.createdLt
  createdAt := header.createdAt
  amount_length := header.amount_length
  ihrFee_length := no_bytes_lt
  fwdFee_length := no_bytes_lt

/-- Without fees, the fields say what the header says. -/
theorem shown_fields (sdk : Sdk) (locals : Locals) (flags : Nat) (ctx : SignTransactionContext)
    (display : Display) :
    header.fields.shown sdk locals flags ctx display = header.shown sdk locals flags ctx display := by
  unfold HeaderFields.shown shown
  simp only [validate_of_true (show header.fields.ihrFee.length = 0 from rfl),
    validate_of_true (show header.fields.fwdFee.length = 0 from rfl), ok_bind, bind_pure]
  rfl

end MessageHeader

theorem Unread.of_grams {slice next : SliceData} {bits : List Bool} {count : Nat}
    (h : Unread slice bits) (hread : slice.getNextInt 4 = .ok (count, next)) :
    count < 16 ∧ ∃ rest, bits = Bits.ofNat 4 count ++ rest ∧ Unread next rest := by
  obtain ⟨rest, hbits, hlt, hnext⟩ := h.front_of_getNextInt hread (by decide)
  exact ⟨hlt, rest, hbits, hnext⟩

section

variable {sdk : Sdk} {locals : Locals} {slice next : SliceData} {flags : Nat}
  {ctx : SignTransactionContext} {display shown : Display} {bits rest : List Bool}

theorem MessageHeader.decodes {header : MessageHeader} (h : Unread slice (header.bits ++ rest))
    (hshown : header.shown sdk locals flags ctx display = .ok shown) :
    ∃ next, deserializeIntMessageHeader sdk locals slice flags ctx display = .ok (next, shown) ∧
      Unread next rest := by
  obtain ⟨next, hread, hnext⟩ := @HeaderFields.decodes header.fields sdk locals slice flags ctx display
    rest h
  rw [header.shown_fields, hshown, ok_bind] at hread
  exact ⟨next, hread, hnext⟩

theorem Unread.of_deserializeIntMessageHeader (h : Unread slice bits)
    (hread : deserializeIntMessageHeader sdk locals slice flags ctx display = .ok (next, shown)) :
    ∃ (header : MessageHeader) (rest : List Bool), bits = header.bits ++ rest ∧
      header.shown sdk locals flags ctx display = .ok shown ∧ Unread next rest := by
  simp only [deserializeIntMessageHeader, bind_eq_ok, validate_eq_ok, pure_eq_ok, Prod.exists]
    at hread
  obtain ⟨intMsg, s1, h1, _, hint, ihrDisabled, s2, h2, bounce, s3, h3, bounced, s4, h4,
    s5, _, _, h5, s6, wc, account, h6, count, s7, h7, _, hcount, s8, amount, h8, _, hamount,
    currencies, s9, h9, ihrFee, s10, h10, _, hihr, fwdFee, s11, h11, _, hfwd,
    createdLt, s12, h12, createdAt, s13, h13, hresult⟩ := hread
  obtain ⟨first, _, rfl, rfl, hs1⟩ := h.front_of_getNextBit h1
  obtain ⟨ihrDisabled, _, rfl, -, hs2⟩ := hs1.front_of_getNextBit h2
  obtain ⟨bounce, _, rfl, -, hs3⟩ := hs2.front_of_getNextBit h3
  obtain ⟨bounced, _, rfl, -, hs4⟩ := hs3.front_of_getNextBit h4
  obtain ⟨source, _, rfl, -, hs5⟩ := hs4.of_deserializeAddress h5
  obtain ⟨recipient, _, rfl, hrecipient, hs6⟩ := hs5.of_deserializeAddress h6
  obtain ⟨hlt, _, rfl, hs7⟩ := hs6.of_grams h7
  obtain ⟨_, rfl, hlength, hs8⟩ := hs7.front_of_deserializeValue h8
  obtain ⟨currencies, _, rfl, -, hs9⟩ := hs8.front_of_getNextBit h9
  obtain ⟨-, _, rfl, hs10⟩ := hs9.of_grams h10
  obtain ⟨-, _, rfl, hs11⟩ := hs10.of_grams h11
  obtain ⟨_, rfl, hlt64, hs12⟩ := hs11.front_of_getNextInt h12 (by decide)
  obtain ⟨_, rfl, hlt32, hs13⟩ := hs12.front_of_getNextInt h13 (by decide)
  obtain ⟨rfl, rfl⟩ := Prod.mk.inj hresult
  obtain rfl : first = false := by cases first with
    | false => rfl
    | true => cases hint
  subst hlength hihr hfwd
  refine ⟨⟨ihrDisabled, bounce, bounced, source, recipient, amount, currencies,
    UInt64.ofNat createdLt, UInt32.ofNat createdAt, hlt⟩, _, ?_, ?_, hs13⟩
  · simp [MessageHeader.bits, Properties.grams, UInt64.toNat_ofNat_of_lt' hlt64, UInt32.toNat_ofNat_of_lt' hlt32]
  · rw [MessageHeader.shown, hrecipient]
    exact hamount

end

/-! Roots. -/

section

variable {slice next : SliceData} {bits : List Bool}

theorem Unread.of_deserializeWalletV3 {flags : Nat} (h : Unread slice bits)
    (hread : Source.deserializeWalletV3 slice = .ok (flags, next)) :
    ∃ (expireAt seqno : UInt32) (byte : UInt8), bits = walletV3Bits expireAt seqno byte ∧
      flags = byte.toNat := by
  simp only [Source.deserializeWalletV3, bind_eq_ok, validate_eq_ok, pure_eq_ok, Prod.exists]
    at hread
  obtain ⟨id, s1, h1, _, hid, expireAt, s2, h2, seqno, s3, h3, flags', s4, h4, _, hempty,
    hresult⟩ := hread
  obtain ⟨_, rfl, -, hs1⟩ := h.front_of_getNextInt h1 (by decide)
  obtain ⟨_, rfl, hexpire, hs2⟩ := hs1.front_of_getNextInt h2 (by decide)
  obtain ⟨_, rfl, hseqno, hs3⟩ := hs2.front_of_getNextInt h3 (by decide)
  obtain ⟨byte, rest, rfl, rfl, hs4⟩ := hs3.front_of_getNextByte h4
  obtain rfl : rest = [] := List.eq_nil_of_length_eq_zero (hs4.remainingBits.symm.trans hempty)
  obtain ⟨rfl, -⟩ := Prod.mk.inj hresult
  subst hid
  refine ⟨UInt32.ofNat expireAt, UInt32.ofNat seqno, byte, ?_, rfl⟩
  simp [walletV3Bits, UInt32.toNat_ofNat_of_lt' hexpire, UInt32.toNat_ofNat_of_lt' hseqno]

theorem Unread.of_deserializeContractHeader {functionId : Nat} (h : Unread slice bits)
    (hread : Source.deserializeContractHeader slice = .ok (functionId, next)) :
    ∃ (header : CallHeader) (rest : List Bool), functionId < 2 ^ 32 ∧
      bits = header.bits functionId ++ rest ∧ Unread next rest := by
  simp only [Source.deserializeContractHeader, bind_eq_ok, Prod.exists] at hread
  obtain ⟨present, s1, h1, s2, h2, time, s3, h3, expire, s4, h4, h5⟩ := hread
  obtain ⟨bit, behind, rfl, rfl, hs1⟩ := h.front_of_getNextBit h1
  obtain ⟨key, rest, hkey, hs2⟩ : ∃ (key : Option Hash) (rest : List Bool),
      bit :: behind = (CallHeader.mk key (UInt64.ofNat time) (UInt32.ofNat expire)).publicKeyBits ++ rest ∧
        Unread s2 rest := by
    cases bit with
    | false =>
      obtain rfl := pure_eq_ok.mp h2
      exact ⟨none, _, rfl, hs1⟩
    | true =>
      obtain ⟨field, rest, rfl, hlength, hs2⟩ := hs1.front_of_moveBy h2
      obtain ⟨key, hkey⟩ := exists_bytes (show (Bits.pack field).length = 32 by
        rw [Bits.length_pack, hlength]
        rfl)
      refine ⟨some key, rest, ?_, hs2⟩
      rw [CallHeader.publicKeyBits]
      simp only
      rw [hkey, Bits.ofBytes_pack (by rw [hlength]; rfl)]
      rfl
  obtain ⟨_, rfl, htime, hs3⟩ := hs2.front_of_getNextInt h3 (by decide)
  obtain ⟨_, rfl, hexpire, hs4⟩ := hs3.front_of_getNextInt h4 (by decide)
  obtain ⟨_, rfl, hid, hs5⟩ := hs4.front_of_getNextInt h5 (by decide)
  refine ⟨⟨key, UInt64.ofNat time, UInt32.ofNat expire⟩, _, hid, ?_, hs5⟩
  rw [hkey, CallHeader.bits]
  simp [UInt64.toNat_ofNat_of_lt' htime, UInt32.toNat_ofNat_of_lt' hexpire]

end

/-! The arguments of a function of a contract wallet. -/

inductive CallArguments where
  | deploy
  | send (recipient : AddressField) (amount : Vector UInt8 16) (bounce : Bool) (flags : UInt8)
  | submit (recipient : AddressField) (amount : Vector UInt8 16) (bounce allBalance : Bool)
  | confirm (transactionId : Vector UInt8 8)

namespace CallArguments

def function : CallArguments → ContractFunction
  | deploy => .deployTransaction
  | send .. => .sendTransaction
  | submit .. => .submitTransaction
  | confirm _ => .confirmTransaction

def recipientBits (recipient : AddressField) (amount : Vector UInt8 16) (bounce : Bool) : List Bool :=
  recipient.bits ++ (Bits.ofBytes amount.toList ++ [bounce])

def bits : CallArguments → List Bool
  | deploy => []
  | send recipient amount bounce flags => recipientBits recipient amount bounce ++ Bits.ofByte flags
  | submit recipient amount bounce allBalance => recipientBits recipient amount bounce ++ [allBalance]
  | confirm transactionId => Bits.ofBytes transactionId.toList

/-- The screen of a transfer. -/
def transferShown (sdk : Sdk) (locals : Locals) (ctx : SignTransactionContext)
    (recipient : AddressField) (amount : Vector UInt8 16) (flags : Nat) :
    Outcome (Flow × Display) := do
  let address := recipient.read 0 locals.dstAddress.toList
  let display ← setAmount amount.toList amountLength flags ctx.decimals ctx.ticker
    (setDstAddress sdk address.1 address.2 Display.untouched)
  pure (.transfer, display)

/-- What they say on the screen of a request, where the deployed address comes from. -/
def shown (sdk : Sdk) (locals : Locals) (wc : UInt8) (address : List UInt8)
    (ctx : SignTransactionContext) : CallArguments → Outcome (Flow × Display)
  | deploy => .ok (.deploy, setDstAddress sdk wc address Display.untouched)
  | send recipient amount _ flags => transferShown sdk locals ctx recipient amount flags.toNat
  | submit recipient amount _ allBalance => transferShown sdk locals ctx recipient amount
      (if allBalance then allBalanceFlag else normalFlag)
  | confirm transactionId => do
      let display ← setTransactionId sdk transactionId.toList Display.untouched
      pure (.confirm, display)

end CallArguments

section

variable {sdk : Sdk} {locals : Locals} {slice next : SliceData} {functionId : Nat} {wc : UInt8}
  {address amount : List UInt8} {ctx : SignTransactionContext} {display shown : Display}
  {flow : Flow} {bits rest : List Bool}

theorem Unread.of_deserializeRecipient (h : Unread slice bits)
    (hread : Source.deserializeRecipient sdk locals slice display = .ok (next, amount, shown)) :
    ∃ (recipient : AddressField) (value : Vector UInt8 16) (bounce : Bool) (rest : List Bool),
      bits = CallArguments.recipientBits recipient value bounce ++ rest ∧ amount = value.toList ∧
      shown = setDstAddress sdk (recipient.read 0 locals.dstAddress.toList).1
        (recipient.read 0 locals.dstAddress.toList).2 display ∧ Unread next rest := by
  simp only [Source.deserializeRecipient, bind_eq_ok, pure_eq_ok, Prod.exists] at hread
  obtain ⟨s1, wc, account, h1, s2, amount', h2, bounce, s3, h3, hresult⟩ := hread
  obtain ⟨recipient, _, rfl, hrecipient, hs1⟩ := h.of_deserializeAddress h1
  obtain ⟨_, rfl, hlength, hs2⟩ := hs1.front_of_deserializeValue h2
  obtain ⟨bounce, _, rfl, -, hs3⟩ := hs2.front_of_getNextBit h3
  obtain ⟨value, rfl⟩ := exists_bytes (show _ = 16 from hlength)
  obtain ⟨rfl, hrest⟩ := Prod.mk.inj hresult
  obtain ⟨rfl, rfl⟩ := Prod.mk.inj hrest
  refine ⟨recipient, value, bounce, _, ?_, rfl, ?_, hs3⟩
  · simp [CallArguments.recipientBits]
  · rw [hrecipient]

theorem CallArguments.decodes {arguments : CallArguments} (h : Unread slice (arguments.bits ++ rest))
    (hid : ContractFunction.ofId functionId = some arguments.function)
    (hshown : arguments.shown sdk locals wc address ctx = .ok (flow, shown)) :
    ∃ next, deserializeMultisigParams sdk locals slice functionId wc address ctx
      Display.untouched = .ok (flow, next, shown) ∧ Unread next rest := by
  unfold deserializeMultisigParams
  rw [hid]
  cases arguments with
  | deploy =>
    obtain ⟨rfl, rfl⟩ := Prod.mk.inj (Except.ok.inj hshown)
    exact ⟨slice, rfl, h⟩
  | send recipient amount bounce flags =>
    simp only [bits, List.append_assoc] at h
    obtain ⟨s1, h1, hs1⟩ := h.recipient amount.length_toList sdk locals Display.untouched
    obtain ⟨s2, h2, hs2⟩ := hs1.getNextByte (Bits.length_ofByte flags)
    obtain ⟨display, hamount, hresult⟩ := bind_eq_ok.mp hshown
    obtain ⟨rfl, rfl⟩ := Prod.mk.inj (pure_eq_ok.mp hresult)
    refine ⟨s2, ?_, hs2⟩
    simp only [function, h1, ok_bind, h2, Bits.number_ofByte, hamount]
    rfl
  | submit recipient amount bounce allBalance =>
    simp only [bits, List.append_assoc, List.cons_append, List.nil_append] at h
    obtain ⟨s1, h1, hs1⟩ := h.recipient amount.length_toList sdk locals Display.untouched
    obtain ⟨s2, h2, hs2⟩ := hs1.getNextBit
    obtain ⟨display, hamount, hresult⟩ := bind_eq_ok.mp hshown
    obtain ⟨rfl, rfl⟩ := Prod.mk.inj (pure_eq_ok.mp hresult)
    have hflags : (if allBalance.toNat = 0 then normalFlag else allBalanceFlag) =
        if allBalance then allBalanceFlag else normalFlag := by cases allBalance <;> rfl
    refine ⟨s2, ?_, hs2⟩
    simp only [function, h1, ok_bind, h2, hflags, hamount]
    rfl
  | confirm transactionId =>
    obtain ⟨s1, h1, hs1⟩ := h.deserializeValue
    rw [Vector.length_toList] at h1
    obtain ⟨display, hset, hresult⟩ := bind_eq_ok.mp hshown
    obtain ⟨rfl, rfl⟩ := Prod.mk.inj (pure_eq_ok.mp hresult)
    refine ⟨s1, ?_, hs1⟩
    simp only [function, transactionIdLength, h1, ok_bind, hset]
    rfl

theorem Unread.of_deserializeMultisigParams (h : Unread slice bits)
    (hread : deserializeMultisigParams sdk locals slice functionId wc address ctx
      Display.untouched = .ok (flow, next, shown)) :
    ∃ (arguments : CallArguments) (rest : List Bool),
      ContractFunction.ofId functionId = some arguments.function ∧ bits = arguments.bits ++ rest ∧
      arguments.shown sdk locals wc address ctx = .ok (flow, shown) ∧ Unread next rest := by
  unfold deserializeMultisigParams at hread
  cases hid : ContractFunction.ofId functionId with
  | none =>
    rw [hid] at hread
    cases hread
  | some function =>
    rw [hid] at hread
    cases function with
    | deployTransaction =>
      obtain ⟨rfl, hrest⟩ := Prod.mk.inj (pure_eq_ok.mp hread)
      obtain ⟨rfl, rfl⟩ := Prod.mk.inj hrest
      exact ⟨.deploy, bits, rfl, rfl, rfl, h⟩
    | sendTransaction =>
      simp only [bind_eq_ok, pure_eq_ok, Prod.exists] at hread
      obtain ⟨s1, _, _, h1, flags, s2, h2, display, hamount, hresult⟩ := hread
      obtain ⟨recipient, amount, bounce, _, rfl, rfl, rfl, hs1⟩ := h.of_deserializeRecipient h1
      obtain ⟨flags, rest, rfl, rfl, hs2⟩ := hs1.front_of_getNextByte h2
      obtain ⟨rfl, hrest⟩ := Prod.mk.inj hresult
      obtain ⟨rfl, rfl⟩ := Prod.mk.inj hrest
      refine ⟨.send recipient amount bounce flags, rest, rfl, ?_, ?_, hs2⟩
      · rw [CallArguments.bits, List.append_assoc]
      · exact bind_eq_ok.mpr ⟨_, hamount, rfl⟩
    | submitTransaction =>
      simp only [bind_eq_ok, pure_eq_ok, Prod.exists] at hread
      obtain ⟨s1, _, _, h1, _, s2, h2, display, hamount, hresult⟩ := hread
      obtain ⟨recipient, amount, bounce, _, rfl, rfl, rfl, hs1⟩ := h.of_deserializeRecipient h1
      obtain ⟨allBalance, rest, rfl, rfl, hs2⟩ := hs1.front_of_getNextBit h2
      obtain ⟨rfl, hrest⟩ := Prod.mk.inj hresult
      obtain ⟨rfl, rfl⟩ := Prod.mk.inj hrest
      refine ⟨.submit recipient amount bounce allBalance, rest, rfl, ?_, ?_, hs2⟩
      · rw [CallArguments.bits, List.append_assoc]
        rfl
      · refine bind_eq_ok.mpr ⟨_, ?_, rfl⟩
        rw [← hamount]
        cases allBalance <;> rfl
    | confirmTransaction =>
      simp only [bind_eq_ok, pure_eq_ok, Prod.exists] at hread
      obtain ⟨s1, _, h1, display, hset, hresult⟩ := hread
      obtain ⟨rest, rfl, hlength, hs1⟩ := h.front_of_deserializeValue h1
      obtain ⟨id, rfl⟩ := exists_bytes (show _ = 8 from hlength)
      obtain ⟨rfl, hrest⟩ := Prod.mk.inj hresult
      obtain ⟨rfl, rfl⟩ := Prod.mk.inj hrest
      exact ⟨.confirm id, rest, rfl, rfl, bind_eq_ok.mpr ⟨_, hset, rfl⟩, hs1⟩

end
/-! Each value carries its own end, so that bits are those of one value. -/

theorem byte_selfDelimiting : SelfDelimiting Bits.ofByte :=
  .of_length (by simp) fun a b heq => by rw [← Bits.toByte_ofByte a, heq, Bits.toByte_ofByte]

theorem bytes_selfDelimiting (count : Nat) :
    SelfDelimiting fun value : Vector UInt8 count => Bits.ofBytes value.toList :=
  .of_length (by simp) fun _ _ heq => Vector.toList_inj.mp (Bits.ofBytes_inj heq)

theorem ofNat_inj {w a b : Nat} (ha : a < 2 ^ w) (hb : b < 2 ^ w)
    (h : Bits.ofNat w a = Bits.ofNat w b) : a = b := by
  have hnumber := congrArg Bits.number h
  rwa [Bits.number_ofNat, Bits.number_ofNat, Nat.mod_eq_of_lt ha, Nat.mod_eq_of_lt hb] at hnumber

theorem word_selfDelimiting : SelfDelimiting fun value : UInt32 => Bits.ofNat 32 value.toNat :=
  .of_length (by simp) fun a b heq => UInt32.toNat_inj.mp (ofNat_inj a.toNat_lt b.toNat_lt heq)

theorem longWord_selfDelimiting : SelfDelimiting fun value : UInt64 => Bits.ofNat 64 value.toNat :=
  .of_length (by simp) fun a b heq => UInt64.toNat_inj.mp (ofNat_inj a.toNat_lt b.toNat_lt heq)

theorem AddressField.selfDelimiting : SelfDelimiting AddressField.bits := by
  intro a b rest rest' heq
  cases a with
  | none =>
    cases b with
    | none => rfl
    | std => simp [bits] at heq
  | std anycast wc account =>
    cases b with
    | none => simp [bits] at heq
    | std anycast' wc' account' =>
      simp only [bits, List.append_assoc, List.cons_append, List.nil_append, List.cons.injEq,
        true_and] at heq
      obtain ⟨rfl, hwc⟩ := heq
      obtain ⟨rfl, haccount⟩ := byte_selfDelimiting.rest_eq hwc
      obtain ⟨rfl, -⟩ := (bytes_selfDelimiting 32).rest_eq haccount
      rfl

theorem grams_rest {first second : List UInt8} {rest rest' : List Bool} (hfirst : first.length < 16)
    (hsecond : second.length < 16) (heq : grams first ++ rest = grams second ++ rest') :
    first = second ∧ rest = rest' := by
  simp only [grams, List.append_assoc] at heq
  obtain ⟨hcount, heq⟩ := List.append_inj heq (by simp)
  have hlength : first.length = second.length := ofNat_inj (w := 4) hfirst hsecond hcount
  obtain ⟨hbytes, hrest⟩ := List.append_inj heq (by simp [hlength])
  exact ⟨Bits.ofBytes_inj hbytes, hrest⟩

theorem MessageHeader.selfDelimiting : SelfDelimiting MessageHeader.bits := by
  intro a b rest rest' heq
  simp only [bits, List.append_assoc, List.cons_append, List.nil_append, List.cons.injEq,
    true_and] at heq
  obtain ⟨hihr, hbounce, hbounced, heq⟩ := heq
  obtain ⟨hsource, heq⟩ := AddressField.selfDelimiting.rest_eq heq
  obtain ⟨hrecipient, heq⟩ := AddressField.selfDelimiting.rest_eq heq
  obtain ⟨hamount, heq⟩ := grams_rest a.amount_length b.amount_length heq
  obtain ⟨hcurrencies, heq⟩ := List.cons.inj heq
  have heq := List.append_cancel_left (List.append_cancel_left heq)
  obtain ⟨hcreatedLt, heq⟩ := longWord_selfDelimiting.rest_eq heq
  obtain ⟨hcreatedAt, -⟩ := word_selfDelimiting.rest_eq heq
  cases a
  cases b
  simp_all

theorem walletV3Bits_inj {expireAt seqno expireAt' seqno' : UInt32} {flags flags' : UInt8}
    (h : walletV3Bits expireAt seqno flags = walletV3Bits expireAt' seqno' flags') :
    expireAt = expireAt' ∧ seqno = seqno' ∧ flags = flags' := by
  unfold walletV3Bits at h
  obtain ⟨hexpire, h⟩ := word_selfDelimiting.rest_eq (List.append_cancel_left h)
  obtain ⟨hseqno, h⟩ := word_selfDelimiting.rest_eq h
  exact ⟨hexpire, hseqno, byte_selfDelimiting.injective h⟩

theorem CallHeader.selfDelimiting :
    SelfDelimiting fun headed : CallHeader × UInt32 => headed.1.bits headed.2.toNat := by
  rintro ⟨⟨key, time, expire⟩, id⟩ ⟨⟨key', time', expire'⟩, id'⟩ rest rest' heq
  simp only [bits, List.append_assoc] at heq
  obtain ⟨rfl, hbehind⟩ : key = key' ∧ _ = _ := by
    cases key with
    | none =>
      cases key' with
      | none => exact ⟨rfl, List.append_cancel_left heq⟩
      | some _ => simp [publicKeyBits] at heq
    | some key =>
      cases key' with
      | none => simp [publicKeyBits] at heq
      | some key' =>
        simp only [publicKeyBits, List.cons_append, List.cons.injEq, true_and] at heq
        obtain ⟨rfl, hbehind⟩ := (bytes_selfDelimiting 32).rest_eq heq
        exact ⟨rfl, hbehind⟩
  obtain ⟨rfl, hexpire⟩ := longWord_selfDelimiting.rest_eq hbehind
  obtain ⟨rfl, hid⟩ := word_selfDelimiting.rest_eq hexpire
  obtain ⟨rfl, -⟩ := word_selfDelimiting.rest_eq hid
  rfl

/-- The arguments of one function. -/
theorem CallArguments.rest_eq {first second : CallArguments} {rest rest' : List Bool}
    (hfunction : first.function = second.function)
    (heq : first.bits ++ rest = second.bits ++ rest') : first = second ∧ rest = rest' := by
  cases first with
  | deploy =>
    cases second with
    | deploy => exact ⟨rfl, heq⟩
    | _ => cases hfunction
  | send recipient amount bounce flags =>
    cases second with
    | send recipient' amount' bounce' flags' =>
      simp only [bits, recipientBits, List.append_assoc, List.cons_append, List.nil_append] at heq
      obtain ⟨rfl, hamount⟩ := AddressField.selfDelimiting.rest_eq heq
      obtain ⟨rfl, hbounce⟩ := (bytes_selfDelimiting 16).rest_eq hamount
      obtain ⟨rfl, hflags⟩ := List.cons.inj hbounce
      obtain ⟨rfl, hrest⟩ := byte_selfDelimiting.rest_eq hflags
      exact ⟨rfl, hrest⟩
    | _ => cases hfunction
  | submit recipient amount bounce allBalance =>
    cases second with
    | submit recipient' amount' bounce' allBalance' =>
      simp only [bits, recipientBits, List.append_assoc, List.cons_append, List.nil_append] at heq
      obtain ⟨rfl, hamount⟩ := AddressField.selfDelimiting.rest_eq heq
      obtain ⟨rfl, hbounce⟩ := (bytes_selfDelimiting 16).rest_eq hamount
      obtain ⟨rfl, hall⟩ := List.cons.inj hbounce
      obtain ⟨rfl, hrest⟩ := List.cons.inj hall
      exact ⟨rfl, hrest⟩
    | _ => cases hfunction
  | confirm transactionId =>
    cases second with
    | confirm transactionId' =>
      obtain ⟨rfl, hrest⟩ := (bytes_selfDelimiting 8).rest_eq heq
      exact ⟨rfl, hrest⟩
    | _ => cases hfunction

end EverscaleLedger.Properties
