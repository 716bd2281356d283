import EverscaleLedger.Properties.AmountLine
import EverscaleLedger.Properties.MessageFormat
import EverscaleLedger.Properties.OrdinaryRun

/-! Plain transfers, encoded as each kind of wallet does it, and what `prepare_to_sign`
displays of them. -/
namespace EverscaleLedger.Properties

open Library Source Slice

/-! What a transfer says. -/

/-- The signed decimal notation of a number. -/
def decimalText (number : Int) : List UInt8 :=
  ascii ((if number < 0 then ['-'] else []) ++ Nat.toDigits 10 number.natAbs)

theorem workchainText_eq (wc : Int8) : workchainText wc.toUInt8 = decimalText wc.toInt ++ ascii [':'] := by
  have hall : ∀ byte : UInt8,
      workchainText byte = decimalText byte.toInt8.toInt ++ ascii [':'] :=
    Bits.forall_byte (by decide +kernel)
  exact hall wc.toUInt8

structure Transfer where
  wc : Int8
  account : Hash
  amount : Nat
  bounce : Bool
  amount_lt : amount < 10 ^ 36

/-- The recipient on the screen: workchain, colon and the digits of the account. -/
def Transfer.addressText (t : Transfer) : List UInt8 :=
  decimalText t.wc.toInt ++ ascii [':'] ++ hexText t.account.toList

def Transfer.recipient (t : Transfer) : MessageAddress := .std t.wc.toUInt8 t.account

/-- What is sent of the balance. -/
inductive Spending where
  | amount
  | allBalance
  | allBalanceAndDelete
deriving DecidableEq

def Spending.flags : Spending → UInt8
  | amount => 3
  | allBalance => 128
  | allBalanceAndDelete => 160

/-- The amount line: the exact amount and the ticker, unless all of the balance goes. -/
def Spending.IsLine (decimals number : Nat) (ticker line : List UInt8) : Spending → Prop
  | amount => ∃ whole fraction, Decimal.Canonical number decimals whole fraction ∧
      line = amountText whole fraction ++ ascii [' '] ++ ticker
  | allBalance => line = allBalanceText
  | allBalanceAndDelete => line = allBalanceAndDeleteText

/-! How it is encoded. -/

/-- As few bytes as the amount needs. -/
def amountBytes (amount : Nat) : List UInt8 :=
  Bits.pack (Bits.ofNat (8 * ((Nat.size amount + 7) / 8)) amount)

theorem ofBytes_packed {width value : Nat} :
    Bits.ofBytes (Bits.pack (Bits.ofNat (8 * width) value)) = Bits.ofNat (8 * width) value :=
  Bits.ofBytes_pack (by rw [Bits.length_ofNat, Nat.mul_mod_right])

theorem readUintBE_packed {width value : Nat} (h : value < 2 ^ (8 * width)) :
    readUintBE (Bits.pack (Bits.ofNat (8 * width) value)) = value := by
  rw [readUintBE_eq, ofBytes_packed, Bits.number_ofNat, Nat.mod_eq_of_lt h]

theorem readUintBE_amountBytes (amount : Nat) : readUintBE (amountBytes amount) = amount := by
  refine readUintBE_packed (Nat.lt_of_lt_of_le (Nat.lt_size_self amount) ?_)
  exact Nat.pow_le_pow_right (by decide) (by omega)

theorem length_amountBytes_le {amount bytes : Nat} (h : amount < 2 ^ (8 * bytes)) :
    (amountBytes amount).length ≤ bytes := by
  have hsize := Nat.size_le.mpr h
  rw [amountBytes, Bits.length_pack, Bits.length_ofNat]
  omega

/-- A transfer of a `WALLET_V3`, with the fields that are not shown. -/
structure WalletV3Transfer where
  expireAt : UInt32
  seqno : UInt32
  spending : Spending
  ihrDisabled : Bool
  bounced : Bool
  source : MessageAddress
  createdLt : UInt64
  createdAt : UInt32

def WalletV3Transfer.header (m : WalletV3Transfer) (t : Transfer) : GiftHeader where
  ihrDisabled := m.ihrDisabled
  bounce := t.bounce
  bounced := m.bounced
  source := m.source
  recipient := t.recipient
  amount := amountBytes t.amount
  currencies := false
  ihrFee := []
  fwdFee := []
  createdLt := m.createdLt
  createdAt := m.createdAt
  amount_length := Nat.lt_succ_of_le (length_amountBytes_le
    (Nat.lt_trans t.amount_lt (by decide : 10 ^ 36 < 2 ^ (8 * 15))))
  ihrFee_length := no_bytes_lt
  fwdFee_length := no_bytes_lt

/-- The functions that send an amount; the newer one of two may also bring a state. -/
inductive TransferFunction where
  | sendTransaction (spending : Spending)
  | submitTransaction (allBalance : Bool)
  | submitTransaction2 (allBalance : Bool)

namespace TransferFunction

def id : TransferFunction → Nat
  | sendTransaction _ => 1290691692
  | submitTransaction _ => 320701133
  | submitTransaction2 _ => 1428000117

def spending : TransferFunction → Spending
  | sendTransaction spending => spending
  | submitTransaction allBalance | submitTransaction2 allBalance =>
      if allBalance then .allBalance else .amount

/-- The arguments behind the recipient, the amount and the bounce bit. -/
def bits : TransferFunction → List Bool
  | sendTransaction spending => Bits.ofByte spending.flags
  | submitTransaction allBalance => [allBalance]
  | submitTransaction2 allBalance => [allBalance, false]

theorem length_bits_le (function : TransferFunction) : function.bits.length ≤ 8 := by
  cases function <;> simp [bits]

end TransferFunction

/-- The message that carries a transfer. -/
inductive TransferMessage where
  | walletV3 (message : WalletV3Transfer)
  | call (header : CallHeader) (function : TransferFunction)

/-- The amount of a call has sixteen bytes. -/
def argumentBits (t : Transfer) (function : TransferFunction) : List Bool :=
  recipientBits t.recipient (Bits.pack (Bits.ofNat (8 * amountLength) t.amount)) t.bounce ++
    function.bits

theorem length_argumentBits_le (t : Transfer) (function : TransferFunction) :
    (argumentBits t function).length ≤ 404 := by
  have hfunction := function.length_bits_le
  have hrecipient : t.recipient.bits.length = 267 := MessageAddress.length_bits_std _ _
  simp only [argumentBits, recipientBits, List.length_append, List.length_cons, List.length_nil,
    ofBytes_packed, Bits.length_ofNat, hrecipient, amountLength]
  omega

namespace TransferMessage

def spending : TransferMessage → Spending
  | walletV3 message => message.spending
  | call _ function => function.spending

/-- The wallets that send such a message. -/
def Suits (family : WalletFamily) : TransferMessage → Prop
  | walletV3 _ => family = .walletV3
  | call _ _ => family ≠ .walletV3

/-- The root of the message. -/
def root : TransferMessage → RawCell
  | walletV3 m => .ordinary (walletV3Bits m.expireAt m.seqno m.spending.flags) [1]
      (by rw [length_walletV3Bits]; decide) one_ref_lt
  | call header function => .ordinary (header.bits function.id) [1]
      (by have h := (header.length_bits function.id).2; omega) one_ref_lt

/-- The cells below it: the internal message, or the arguments and an empty payload. -/
def below (t : Transfer) : TransferMessage → List RawCell
  | walletV3 m => [.ordinary ((m.header t).bits ++ [false, false]) []
      (by have h := (m.header t).length_bits_le; simp; omega) no_refs_lt]
  | call _ function => [.ordinary (argumentBits t function) [2]
      (by have h := length_argumentBits_le t function; omega) one_ref_lt,
      .ordinary [] [] no_bits_lt no_refs_lt]

end TransferMessage

/-! Decoding. -/

theorem Parsed.cellAt {parsed : BocContext} {cells : List RawCell} (h : Parsed parsed cells)
    {i : Nat} {c : RawCell} (hc : cells[i]? = some c) :
    ∃ rest, Source.cellAt parsed i = .ok (parsed.cells i) ∧ Holds (parsed.cells i) c rest := by
  obtain ⟨rest, hrest⟩ := h.holds i c hc
  have hlt := (List.getElem?_eq_some_iff.mp hc).1
  rw [← h.count] at hlt
  refine ⟨rest, ?_, hrest⟩
  rw [Source.cellAt, validate_of_true hlt]
  rfl

/-- What `WALLET_V3` decodes of a root and an internal message. -/
theorem decodeWalletV3_eq {sdk : Sdk} {locals : Locals} {ctx : SignTransactionContext}
    {parsed : BocContext} {root gift : RawCell} {below : List RawCell}
    (hparsed : Parsed parsed (root :: gift :: below)) {expireAt seqno : UInt32} {flags : UInt8}
    {rootRefs giftRefs : List UInt8} (hroot : root.Encodes (walletV3Bits expireAt seqno flags) rootRefs)
    {header : GiftHeader} {bodyBit : Bool} {body : List Bool}
    (hgift : gift.Encodes (header.bits ++ (false :: bodyBit :: body)) giftRefs) :
    ∃ next, Unread next (body ++ Bits.padding (header.bits.length + 2 + body.length)) ∧
      decodeWalletV3 sdk locals parsed root.slice ctx = (do
        let display ← header.shown sdk locals flags.toNat ctx Display.untouched
        if bodyBit = true ∨ giftRefs ≠ [] then do
          let refCell ← cellAt parsed (giftCellIndex + 1)
          let refSlice ← SliceData.fromCell refCell
          let (flow, source, display) ←
            deserializeTokenBody sdk locals ⟨next, some refSlice, false⟩ ctx display
          pure ⟨flow, display, giftCellIndex, source.slice, source.refSlice⟩
        else pure ⟨.transfer, display, giftCellIndex, next, none⟩) := by
  have hrootBits := hroot.unread
  rw [Bits.completed_eq, length_walletV3Bits] at hrootBits
  obtain ⟨s1, h1⟩ := (show Unread root.slice (walletV3Bits expireAt seqno flags) from
    List.append_nil (walletV3Bits expireAt seqno flags) ▸ hrootBits).deserializeWalletV3
  obtain ⟨rest, hcell, hholds⟩ := @Parsed.cellAt parsed _ hparsed giftCellIndex gift rfl
  have hgiftBits := hgift.unread
  have hlength : (header.bits ++ (false :: bodyBit :: body)).length =
      header.bits.length + 2 + body.length := by
    simp only [List.length_append, List.length_cons]
    omega
  rw [Bits.completed_eq, hlength, List.append_assoc] at hgiftBits
  obtain ⟨s2, h2, hs2⟩ := @GiftHeader.decodes header sdk locals gift.slice flags.toNat ctx
    Display.untouched _ hgiftBits
  obtain ⟨s3, h3, hs3⟩ := hs2.getNextBit
  obtain ⟨s4, h4, hs4⟩ := hs3.getNextBit
  refine ⟨s4, hs4, ?_⟩
  simp only [decodeWalletV3, h1, ok_bind, hcell, hholds.fromCell, h2]
  cases header.shown sdk locals flags.toNat ctx Display.untouched with
  | error e => rfl
  | ok display =>
    have hcond : (bodyBit.toNat ≠ 0 ∨ gift.refs.length ≠ 0) ↔ (bodyBit = true ∨ giftRefs ≠ []) := by
      cases bodyBit <;> simp [hgift.refs]
    simp only [ok_bind, pure_bind, h3, Bool.toNat_false, validate_of_true (show True from trivial),
      hholds.getRefs, h4, hcond]

/-- The decimals and the ticker of a request. -/
structure ShowsTicker (ctx : SignTransactionContext) (ticker : List UInt8) : Prop where
  decimals : ctx.decimals ≤ 37
  field : ctx.ticker = ticker ++ List.replicate (maxTickerLen - ticker.length) 0
  length_pos : 1 ≤ ticker.length
  length_le : ticker.length ≤ 9
  ne_zero : ∀ c ∈ ticker, c ≠ 0

theorem ShowsTicker.read {ctx : SignTransactionContext} {ticker : List UInt8}
    (h : ShowsTicker ctx ticker) : 0 ∈ ctx.ticker ∧ cString ctx.ticker = ticker := by
  have hlength := h.length_le
  rw [h.field, cString_append_zeros, cString_of_ne_zero h.ne_zero]
  refine ⟨List.mem_append_right _ (List.mem_replicate.mpr ⟨?_, rfl⟩), rfl⟩
  unfold maxTickerLen
  omega

/-- The amount line of a transfer. -/
theorem Spending.setAmount_eq (spending : Spending) {ctx : SignTransactionContext}
    {ticker amount : List UInt8} (hticker : ShowsTicker ctx ticker)
    (hnumber : readUintBE amount < 10 ^ 36)
    (hfits : textLength (readUintBE amount) ctx.decimals + 1 + ticker.length < amountStrSize) :
    ∃ line, spending.IsLine ctx.decimals (readUintBE amount) ticker line ∧ ∀ display : Display,
      setAmount amount amount.length spending.flags.toNat ctx.decimals ctx.ticker display =
        .ok { display with amountStr := some (amountField line) } := by
  cases spending with
  | amount =>
    obtain ⟨hzero, hread⟩ := hticker.read
    obtain ⟨text, hcanonical, hset⟩ := setAmount_normal_eq hticker.decimals hzero hnumber
    rw [hread] at hset
    refine ⟨text ++ ascii [' '] ++ ticker, ?_, fun display => (hset display).trans ?_⟩
    · obtain ⟨-, -, whole, fraction, hnotation, rfl⟩ := hcanonical
      exact ⟨whole, fraction, hnotation, rfl⟩
    · rw [← length_of_canonicalText hcanonical] at hfits
      rw [validate_of_true (Nat.le_of_lt hfits), ok_bind]
      rfl
  | allBalance => exact ⟨_, rfl, fun display => rfl⟩
  | allBalanceAndDelete => exact ⟨_, rfl, fun display => rfl⟩

def Transfer.shown (t : Transfer) (line : List UInt8) : Display :=
  ⟨some (t.addressText ++ [0]), some (amountField line), none⟩

/-- What the screens are to show of a transfer. -/
structure Displays (t : Transfer) (spending : Spending) (decimals : Nat) (ticker : List UInt8)
    (flow : Flow) (display : Display) : Prop where
  flow : flow = .transfer
  address : display.addressStr = some (t.addressText ++ [0])
  amount : ∃ line, spending.IsLine decimals t.amount ticker line ∧
    display.amountStr = some (amountField line)

theorem Transfer.setDstAddress_eq (t : Transfer) {sdk : Sdk}
    (hhex : ∀ input, sdk.formatHex input = hexText input) (display : Display) :
    setDstAddress sdk t.wc.toUInt8 t.account.toList display =
      { display with addressStr := some (t.addressText ++ [0]) } := by
  rw [setDstAddress, workchainText_eq, hhex]
  rfl

section

variable {sdk : Sdk} {locals : Locals} {ctx : SignTransactionContext} {t : Transfer}
  {ticker : List UInt8} (hhex : ∀ input, sdk.formatHex input = hexText input)
  (hticker : ShowsTicker ctx ticker)
  (hfits : textLength t.amount ctx.decimals + 1 + ticker.length < amountStrSize)

include hhex hticker hfits

theorem WalletV3Transfer.header_shown (m : WalletV3Transfer) :
    ∃ shown, (m.header t).shown sdk locals m.spending.flags.toNat ctx Display.untouched = .ok shown ∧
      Displays t m.spending ctx.decimals ticker .transfer shown := by
  have hnumber := readUintBE_amountBytes t.amount
  obtain ⟨line, hline, hset⟩ := m.spending.setAmount_eq hticker
    (hnumber.symm ▸ t.amount_lt) (hnumber.symm ▸ hfits)
  rw [hnumber] at hline
  refine ⟨t.shown line, ?_, rfl, rfl, line, hline, rfl⟩
  unfold GiftHeader.shown
  simp only [WalletV3Transfer.header, Transfer.recipient, MessageAddress.read,
    t.setDstAddress_eq hhex, hset, ok_bind]
  rfl

theorem TransferFunction.params_shown (function : TransferFunction) {slice : SliceData}
    {rest : List Bool} (h : Unread slice (argumentBits t function ++ rest)) (wc : UInt8)
    (address : List UInt8) :
    ∃ flow next shown, deserializeMultisigParams sdk locals slice function.id wc address ctx
        Display.untouched = .ok (flow, next, shown) ∧
      Displays t function.spending ctx.decimals ticker flow shown := by
  have hbytes : (Bits.pack (Bits.ofNat (8 * amountLength) t.amount)).length = amountLength := by
    rw [Bits.length_pack, Bits.length_ofNat]
    rfl
  have hnumber := readUintBE_packed (Nat.lt_trans t.amount_lt
    (show 10 ^ 36 < 2 ^ (8 * amountLength) by decide))
  unfold argumentBits at h
  rw [List.append_assoc] at h
  obtain ⟨s1, h1, hs1⟩ := h.deserializeRecipient hbytes sdk locals Display.untouched
  simp only [Transfer.recipient, MessageAddress.read, t.setDstAddress_eq hhex] at h1
  have hset := fun spending : Spending => spending.setAmount_eq hticker
    (hnumber.symm ▸ t.amount_lt) (hnumber.symm ▸ hfits)
  rw [hnumber, hbytes] at hset
  have hflags : ∀ allBalance : Bool,
      (if allBalance.toNat = 0 then normalFlag else allBalanceFlag) =
        (if allBalance then Spending.allBalance else .amount).flags.toNat := by decide
  cases function with
  | sendTransaction spending =>
    obtain ⟨s2, h2, hs2⟩ := hs1.getNextByte (Bits.length_ofByte _)
    rw [show Bits.number (TransferFunction.sendTransaction spending).bits = _ from
      Bits.number_ofByte _] at h2
    obtain ⟨line, hline, hset⟩ := hset spending
    refine ⟨.transfer, s2, t.shown line, ?_, rfl, rfl, line, hline, rfl⟩
    simp only [deserializeMultisigParams, TransferFunction.id,
      show ContractFunction.ofId 1290691692 = some .sendTransaction from rfl, h1, ok_bind, h2, hset]
    rfl
  | submitTransaction allBalance =>
    obtain ⟨s2, h2, hs2⟩ := hs1.getNextBit
    obtain ⟨line, hline, hset⟩ := hset (if allBalance then .allBalance else .amount)
    refine ⟨.transfer, s2, t.shown line, ?_, rfl, rfl, line, hline, rfl⟩
    simp only [deserializeMultisigParams, TransferFunction.id,
      show ContractFunction.ofId 320701133 = some .submitTransaction from rfl, h1, ok_bind, h2,
      hflags, hset]
    rfl
  | submitTransaction2 allBalance =>
    obtain ⟨s2, h2, hs2⟩ := hs1.getNextBit
    obtain ⟨line, hline, hset⟩ := hset (if allBalance then .allBalance else .amount)
    refine ⟨.transfer, s2, t.shown line, ?_, rfl, rfl, line, hline, rfl⟩
    simp only [deserializeMultisigParams, TransferFunction.id,
      show ContractFunction.ofId 1428000117 = some .submitTransaction from rfl, h1, ok_bind, h2,
      hflags, hset]
    rfl

end

theorem TransferFunction.id_lt (function : TransferFunction) : function.id < 2 ^ 32 := by
  cases function <;> simp only [TransferFunction.id] <;> decide

theorem TransferFunction.ofId_ne (function : TransferFunction) :
    ContractFunction.ofId function.id ≠ some .confirmTransaction := by
  cases function <;> simp only [TransferFunction.id] <;> decide

/-- An empty payload leaves what was decoded. -/
theorem decodeGiftBody_empty {sdk : Sdk} {locals : Locals} {ctx : SignTransactionContext}
    {parsed : BocContext} {root arguments payload : RawCell}
    (hparsed : Parsed parsed [root, arguments, payload]) (hrefs : arguments.refs ≠ [])
    (hempty : payload.data = []) (decoded : Decoded) :
    ∃ bodySlice, decodeGiftBody sdk locals parsed (parsed.cells giftCellIndex) ctx decoded =
      .ok { decoded with bodySlice := some bodySlice } := by
  obtain ⟨rest, -, hholds⟩ := @Parsed.cellAt parsed _ hparsed giftCellIndex arguments rfl
  obtain ⟨rest', hcell, hpayload⟩ := @Parsed.cellAt parsed _ hparsed (giftCellIndex + 1) payload rfl
  have hslice : payload.slice.isEmpty = true := by
    simp [SliceData.isEmpty, RawCell.slice, hempty]
  refine ⟨payload.slice, ?_⟩
  have hcount : arguments.refs.length ≠ 0 := fun hzero => hrefs (List.eq_nil_of_length_eq_zero hzero)
  simp only [decodeGiftBody, hholds.getRefs, ok_bind, hcell, hpayload.fromCell, hslice]
  rw [if_pos hcount, if_pos trivial]
  rfl

namespace TransferMessage

variable (message : TransferMessage) (t : Transfer)

theorem ordinaryBoc : OrdinaryBoc (message.root :: message.below t) := by
  refine OrdinaryBoc.of_plain ?_ ?_
  · cases message with
    | walletV3 m => exact List.forall_mem_cons.mpr ⟨rfl, List.forall_mem_singleton.mpr rfl⟩
    | call header function =>
      exact List.forall_mem_cons.mpr ⟨rfl,
        List.forall_mem_cons.mpr ⟨rfl, List.forall_mem_singleton.mpr rfl⟩⟩
  · cases message with
    | walletV3 m => exact (by decide : ForwardRefs [[1], []])
    | call header function => exact (by decide : ForwardRefs [[1], [2], []])

theorem walletV3_encodes (m : WalletV3Transfer) : (walletV3 m).root.Encodes
    (walletV3Bits m.expireAt m.seqno m.spending.flags) [1] :=
  RawCell.ordinary_encodes (by rw [length_walletV3Bits]; decide) (by decide)

theorem call_encodes (header : CallHeader) (function : TransferFunction) :
    (call header function).root.Encodes (header.bits function.id) [1] :=
  RawCell.ordinary_encodes (Nat.lt_of_le_of_lt (header.length_bits function.id).2 (by decide))
    (by decide)

theorem leavesRoom {family : WalletFamily} (hsuits : message.Suits family)
    (hfamily : family = .prefixedContract) {prependAddress : List UInt8}
    (haddress : prependAddress.length = addressLength) :
    LeavesRoom message.root prependAddress := by
  cases message with
  | walletV3 m =>
    rw [show family = _ from hsuits] at hfamily
    cases hfamily
  | call header function =>
    have hencodes := call_encodes header function
    have hbits := header.length_bits function.id
    have hlength := hencodes.length_data
    refine ⟨haddress, fun hnil => ?_, by omega, ?_⟩
    · rw [hnil, List.length_nil] at hlength
      omega
    · rw [hencodes.bits_eq, hencodes.refs, List.length_singleton]
      omega

variable {message t}

theorem decodes {sdk : Sdk} {locals : Locals} {request : SigningRequest} {family : WalletFamily}
    {parsed : BocContext} {ticker : List UInt8}
    (hhex : ∀ input, sdk.formatHex input = hexText input)
    (hticker : ShowsTicker request.ctx ticker)
    (hfits : textLength t.amount request.ctx.decimals + 1 + ticker.length < amountStrSize)
    (hsuits : message.Suits family) (hparsed : Parsed parsed (message.root :: message.below t)) :
    ∃ d, decodeFor sdk locals request parsed message.root.slice family = .ok d ∧
      Displays t message.spending request.ctx.decimals ticker d.flow d.display := by
  cases message with
  | walletV3 m =>
    obtain rfl : family = .walletV3 := hsuits
    obtain ⟨shown, hshown, hdisplays⟩ := m.header_shown hhex hticker hfits
    obtain ⟨gift, hbelow, hgift⟩ : ∃ gift, (walletV3 m).below t = [gift] ∧
        gift.Encodes ((m.header t).bits ++ [false, false]) [] :=
      ⟨_, rfl, RawCell.ordinary_encodes
        (by have h := (m.header t).length_bits_le; simp; omega) (by decide)⟩
    rw [hbelow] at hparsed
    obtain ⟨next, -, hdecode⟩ := @decodeWalletV3_eq sdk locals request.ctx _ _ _ _ hparsed _ _ _ _ _
      (walletV3_encodes m) _ _ _ hgift
    rw [hshown, ok_bind, if_neg (by simp)] at hdecode
    exact ⟨_, hdecode, hdisplays⟩
  | call header function =>
    obtain ⟨arguments, payload, hbelow, harguments, hempty⟩ : ∃ arguments payload,
        (call header function).below t = [arguments, payload] ∧
          arguments.Encodes (argumentBits t function) [2] ∧ payload.data = [] :=
      ⟨_, _, rfl, RawCell.ordinary_encodes (Nat.lt_of_le_of_lt (length_argumentBits_le t function)
        (by decide)) (by decide), rfl⟩
    rw [hbelow] at hparsed
    have hrootBits := (call_encodes header function).unread
    rw [Bits.completed_eq] at hrootBits
    obtain ⟨s1, h1, -⟩ := hrootBits.deserializeContractHeader function.id_lt
    obtain ⟨rest, hcell, hholds⟩ := @Parsed.cellAt parsed _ hparsed giftCellIndex arguments rfl
    have hargumentBits := harguments.unread
    rw [Bits.completed_eq] at hargumentBits
    obtain ⟨flow, next, shown, hparams, hdisplays⟩ := @TransferFunction.params_shown sdk locals
      request.ctx t ticker hhex hticker hfits function _ _ hargumentBits request.wc request.address
    have hrefs : arguments.refs ≠ [] := by
      rw [harguments.refs]
      exact List.cons_ne_nil _ _
    obtain ⟨bodySlice, hbody⟩ := @decodeGiftBody_empty sdk locals request.ctx _ _ _ _ hparsed hrefs
      hempty ⟨flow, shown, giftCellIndex, next, none⟩
    cases family with
    | walletV3 => exact absurd rfl hsuits
    | contract =>
      refine ⟨⟨flow, shown, giftCellIndex, next, some bodySlice⟩, ?_, hdisplays⟩
      have hcount : parsed.cellsCount > giftCellIndex := by
        rw [hparsed.count]
        exact Nat.succ_lt_succ (Nat.succ_pos _)
      simp only [decodeFor, decodeContract, h1, ok_bind, decide_eq_false function.ofId_ne,
        Bool.false_eq_true, if_false, false_or, validate_of_true hcount, hholds.fromCell, hparams]
      exact hbody
    | prefixedContract =>
      refine ⟨⟨flow, shown, giftCellIndex, next, some bodySlice⟩, ?_, hdisplays⟩
      simp only [decodeFor, decodePrefixedContract, h1, ok_bind, hcell, hholds.fromCell, hparams]
      exact hbody

end TransferMessage

/-- A plain transfer of any wallet is displayed as what it says. -/
theorem honest_transfer_displayed (t : Transfer) (message : TransferMessage) {family : WalletFamily}
    (hsuits : message.Suits family) {sdk : Sdk}
    (hhex : ∀ input, sdk.formatHex input = hexText input) (locals : Locals)
    {request : SigningRequest} (hfamily : request.family = some family)
    (haddress : request.prependAddress.length = addressLength) {ticker : List UInt8}
    (hticker : ShowsTicker request.ctx ticker)
    (hfits : textLength t.amount request.ctx.decimals + 1 + ticker.length < amountStrSize)
    {bc : BocContext} (hindex : bc.publicKeyCellIndex = 0) (header : BocHeader) (tail : List UInt8)
    {src : ByteStream} (hcursor : src.getCursor =
      header.bytes (UInt8.ofNat (message.root :: message.below t).length) ++
        (serializeCells (message.root :: message.below t) ++ tail)) :
    ∃ p, request.prepare sdk locals bc src = .ok p ∧
      Displays t message.spending request.ctx.decimals ticker p.decoded.flow p.decoded.display := by
  obtain ⟨parsed, hparsed, hends⟩ := (message.ordinaryBoc t).endsAs sdk locals hfamily
    (fun hprefixed => message.leavesRoom hsuits hprefixed haddress) hindex header tail hcursor
  obtain ⟨d, hdecode, hdisplays⟩ :=
    @TransferMessage.decodes message t sdk locals request family _ _ hhex hticker hfits hsuits hparsed
  rw [hdecode] at hends
  obtain ⟨p, hp, rfl⟩ := hends
  exact ⟨p, hp, hdisplays⟩

/-- 1.5 EVER to an account of the masterchain. -/
def someTransfer : Transfer where
  wc := -1
  account := Vector.replicate 32 0x55
  amount := 1500000000
  bounce := true
  amount_lt := by decide

def someCall : TransferMessage :=
  .call ⟨some (Vector.replicate 32 0x11), 0x17F, 0x64F9E1D5⟩ (.sendTransaction .amount)

theorem honest_transfer_displayed_call :
    ∃ p, (plainRequest 2).prepare testSdk zeroLocals BocContext.zero
        (received (serialize plainHeader 0x03 (someCall.root :: someCall.below someTransfer))) = .ok p ∧
      Displays someTransfer .amount 9 (ascii ['E', 'V', 'E', 'R']) p.decoded.flow
        p.decoded.display :=
  @honest_transfer_displayed someTransfer someCall .contract nofun testSdk (fun _ => rfl)
    zeroLocals (plainRequest 2) rfl (by decide) (ascii ['E', 'V', 'E', 'R'])
    ⟨by decide, rfl, by decide, by decide, by decide⟩ (by decide) BocContext.zero rfl plainHeader [] _
    (by rw [List.append_nil]; rfl)

end EverscaleLedger.Properties
