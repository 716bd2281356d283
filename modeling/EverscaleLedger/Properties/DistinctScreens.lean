import EverscaleLedger.Properties.TransferExchange

/-! What the screens tell apart. The lines of two transfers are the same only if the same
is spent and goes to the same account, so nothing that is shown can be taken for another
transfer of the same ticker. -/
namespace EverscaleLedger.Properties

open Library Source

/-! The amount line. -/

/-- Equal amounts are equal numbers of units. -/
theorem amountText_inj {number number' decimals : Nat} {whole fraction whole' fraction' : List Nat}
    (h : Decimal.Canonical number decimals whole fraction)
    (h' : Decimal.Canonical number' decimals whole' fraction')
    (heq : amountText whole fraction = amountText whole' fraction') : number = number' := by
  have hread := reading_amountText h
  rw [heq, reading_amountText h'] at hread
  exact_mod_cast hread.symm

/-- An amount starts with a digit. -/
theorem amountText_head {number decimals : Nat} {whole fraction : List Nat}
    (h : Decimal.Canonical number decimals whole fraction) (rest : List UInt8) :
    ∃ c ∈ (amountText whole fraction ++ rest).head?, c.toNat < 58 := by
  obtain ⟨digit, digits, rfl⟩ : ∃ digit digits, whole = digit :: digits := by
    obtain hzero | ⟨first, digits, hlead, -⟩ := h.whole_lead
    · exact ⟨0, [], hzero⟩
    · exact ⟨first, digits, hlead⟩
  refine ⟨_, rfl, ?_⟩
  have hdigit := h.whole_digits digit List.mem_cons_self
  rw [digitChar_toNat hdigit]
  change digit + 48 < 58
  omega

theorem IsLine_amount_ne {number decimals : Nat} {ticker line : List UInt8}
    (h : Spending.amount.IsLine decimals number ticker line) :
    line ≠ allBalanceText ∧ line ≠ allBalanceAndDeleteText := by
  obtain ⟨whole, fraction, hcanonical, rfl⟩ := h
  obtain ⟨c, hc, hdigit⟩ := amountText_head hcanonical (ascii [' '] ++ ticker)
  rw [← List.append_assoc] at hc
  constructor
  · intro heq
    rw [heq] at hc
    obtain rfl := Option.some.inj hc
    exact absurd hdigit (by decide)
  · intro heq
    rw [heq] at hc
    obtain rfl := Option.some.inj hc
    exact absurd hdigit (by decide)

/-- Lines are the same when the same is spent. -/
theorem isLine_inj {spending spending' : Spending} {decimals number number' : Nat}
    {ticker line line' : List UInt8} (h : spending.IsLine decimals number ticker line)
    (h' : spending'.IsLine decimals number' ticker line') :
    line = line' ↔ spending = spending' ∧ (spending = .amount → number = number') := by
  cases spending with
  | amount =>
    cases spending' with
    | amount =>
      obtain ⟨whole, fraction, hcanonical, rfl⟩ := h
      obtain ⟨whole', fraction', hcanonical', rfl⟩ := h'
      constructor
      · intro heq
        have htext := List.append_cancel_right (List.append_cancel_right heq)
        exact ⟨rfl, fun _ => amountText_inj hcanonical hcanonical' htext⟩
      · rintro ⟨-, hnumber⟩
        obtain rfl := hnumber rfl
        obtain ⟨rfl, rfl⟩ := hcanonical.unique hcanonical'
        rfl
    | allBalance =>
      rw [show line' = allBalanceText from h']
      exact iff_of_false (IsLine_amount_ne h).1 (by simp)
    | allBalanceAndDelete =>
      rw [show line' = allBalanceAndDeleteText from h']
      exact iff_of_false (IsLine_amount_ne h).2 (by simp)
  | allBalance =>
    rw [show line = allBalanceText from h]
    cases spending' with
    | amount => exact iff_of_false (Ne.symm (IsLine_amount_ne h').1) (by simp)
    | allBalance => exact iff_of_true (show line' = allBalanceText from h').symm (by simp)
    | allBalanceAndDelete =>
      rw [show line' = allBalanceAndDeleteText from h']
      exact iff_of_false (by decide) (by simp)
  | allBalanceAndDelete =>
    rw [show line = allBalanceAndDeleteText from h]
    cases spending' with
    | amount => exact iff_of_false (Ne.symm (IsLine_amount_ne h').2) (by simp)
    | allBalance =>
      rw [show line' = allBalanceText from h']
      exact iff_of_false (by decide) (by simp)
    | allBalanceAndDelete =>
      exact iff_of_true (show line' = allBalanceAndDeleteText from h').symm (by simp)

/-! The recipient. -/

/-- The number that the digits of a workchain denote. -/
def workchainRead (text : List UInt8) : Int :=
  if text.head? = some 45 then - (Decimal.value (charDigits text.tail) : Int)
  else Decimal.value (charDigits text)

theorem workchainRead_decimalText (wc : Int8) :
    workchainRead (decimalText wc.toInt) = wc.toInt ∧ 58 ∉ decimalText wc.toInt := by
  have hbyte := @Bits.forall_byte (fun byte =>
    workchainRead (workchainText byte).dropLast = byte.toInt8.toInt ∧
      58 ∉ (workchainText byte).dropLast) (by decide +kernel) wc.toUInt8
  rw [workchainText_eq] at hbyte
  simpa [ascii] using hbyte

theorem hexDigit_inj : ∀ i j : Fin 16, hexDigit i = hexDigit j → i = j := by decide

theorem hexDigit_ne_colon : ∀ i : Fin 16, hexDigit i ≠ 58 := by decide

/-- The two digits of a byte. -/
def hexByte (byte : UInt8) : List UInt8 := [hexDigit (byte.toNat / 16), hexDigit (byte.toNat % 16)]

theorem hexByte_injective : Function.Injective hexByte := by
  intro first second h
  simp only [hexByte, List.cons.injEq, and_true] at h
  have hfirst := first.toNat_lt
  have hsecond := second.toNat_lt
  have hhigh := hexDigit_inj ⟨first.toNat / 16, by omega⟩ ⟨second.toNat / 16, by omega⟩ h.1
  have hlow := hexDigit_inj ⟨first.toNat % 16, by omega⟩ ⟨second.toNat % 16, by omega⟩ h.2
  rw [Fin.mk.injEq] at hhigh hlow
  apply UInt8.toNat_inj.mp
  omega

theorem hexText_inj {input input' : List UInt8} (hlength : input.length = input'.length)
    (h : hexText input = hexText input') : input = input' := by
  have hbyte : ∀ byte, (hexByte byte).length = 2 := fun _ => rfl
  exact flatMap_injective hbyte hexByte_injective hlength h

theorem colon_notMem_hexText (input : List UInt8) : 58 ∉ hexText input := by
  intro hmem
  simp only [hexText, List.mem_flatMap, List.mem_cons, List.not_mem_nil, or_false] at hmem
  obtain ⟨byte, -, heq | heq⟩ := hmem
  · have := byte.toNat_lt
    exact hexDigit_ne_colon ⟨byte.toNat / 16, by omega⟩ heq.symm
  · exact hexDigit_ne_colon ⟨byte.toNat % 16, by omega⟩ heq.symm

/-- Recipients are the same when workchain and account are. -/
theorem addressText_inj {first second : Transfer} :
    first.addressText = second.addressText ↔
      first.wc = second.wc ∧ first.account = second.account := by
  constructor
  · intro h
    obtain ⟨hread, hcolon⟩ := workchainRead_decimalText first.wc
    unfold Transfer.addressText at h
    rw [List.append_assoc, List.append_assoc] at h
    obtain ⟨htext, -, hhex⟩ := (List.append_cons_inj_of_notMem
      (fun hmem => hcolon hmem) (fun hmem => colon_notMem_hexText _ hmem)).mp h
    constructor
    · apply Int8.toInt_inj.mp
      rw [← hread, htext, (workchainRead_decimalText second.wc).1]
    · apply Vector.toList_inj.mp
      exact hexText_inj (by simp) hhex
  · rintro ⟨hwc, haccount⟩
    unfold Transfer.addressText
    rw [hwc, haccount]

/-! Screens. -/

namespace SentTransfer

/-- Some device puts up the screen when it has been sent the request. -/
def PutsUp (sdk : Sdk) (sent : SentTransfer) (screen : Screen) : Prop :=
  ∃ (device waiting : Device) (chunk : Chunk) (locals : Locals) (rest : List (Chunk × Locals)),
    sentBytes ((chunk, locals) :: rest) = sent.request.encode ∧
    sent.request.header.length ≤ chunk.val.length ∧
    Trace (step sdk) device
      (exchange ⟨none, none⟩ (transmit true ((chunk, locals) :: rest))) waiting ∧
    waiting.screen = some screen

/-- The same is spent, and goes to the same account. -/
structure SameTransfer (first second : SentTransfer) : Prop where
  spending : first.message.spending = second.message.spending
  amount : first.message.spending = .amount → first.transfer.amount = second.transfer.amount
  wc : first.transfer.wc = second.transfer.wc
  account : first.transfer.account = second.transfer.account

theorem Shows.text_iff {sdk : Sdk} {first second : SentTransfer} {derived derived' : Hash}
    {screen screen' : Screen} (h : first.Shows sdk derived screen)
    (h' : second.Shows sdk derived' screen')
    (hdecimals : first.request.decimals = second.request.decimals)
    (hticker : first.request.ticker = second.request.ticker) :
    screen.text = screen'.text ↔ first.SameTransfer second := by
  obtain ⟨line, hline, htext⟩ := h.text
  obtain ⟨line', hline', htext'⟩ := h'.text
  rw [hdecimals, hticker] at hline
  rw [htext, htext', List.cons.injEq, List.singleton_inj, isLine_inj hline hline', addressText_inj]
  constructor
  · rintro ⟨⟨hspending, hamount⟩, hwc, haccount⟩
    exact ⟨hspending, hamount, hwc, haccount⟩
  · intro hsame
    exact ⟨⟨hsame.spending, hsame.amount⟩, hsame.wc, hsame.account⟩

/-- Every screen that a device puts up for a transfer is the screen of the transfer. -/
theorem PutsUp.shows {sdk : Sdk} (hhex : ∀ input, sdk.formatHex input = hexText input)
    {sent : SentTransfer} {publicKey : Hash}
    (hkey : getPublicKey sdk sent.request.accountNumber.toNat = some publicKey) {screen : Screen}
    (h : sent.PutsUp sdk screen) : ∃ derived, sent.Shows sdk derived screen := by
  obtain ⟨device, waiting, chunk, locals, rest, hbytes, hfirst, htrace, hscreen⟩ := h
  obtain ⟨derived, dc, -, hheld, hdelivered⟩ := sent.request.held hkey
  obtain ⟨waiting', screen', htrace', hscreen', hshows, -⟩ :=
    sent.reviewed hhex hheld rfl (hdelivered device chunk locals rest hbytes hfirst)
  obtain rfl := (htrace.unique htrace' rfl).2
  obtain rfl := Option.some.inj (hscreen.symm.trans hscreen')
  exact ⟨derived, hshows⟩

/-- A request that is sent in one chunk. -/
theorem exists_screen {sdk : Sdk} (hhex : ∀ input, sdk.formatHex input = hexText input)
    (sent : SentTransfer) {publicKey : Hash}
    (hkey : getPublicKey sdk sent.request.accountNumber.toNat = some publicKey) (device : Device)
    (locals : Locals) (hfits : sent.request.encode ≠ [] ∧ sent.request.encode.length < 256) :
    ∃ screen, sent.PutsUp sdk screen := by
  obtain ⟨derived, dc, -, hheld, hdelivered⟩ := sent.request.held hkey
  have hbytes : sentBytes [(⟨sent.request.encode, hfits⟩, locals)] = sent.request.encode :=
    List.append_nil _
  have hfirst : sent.request.header.length ≤ sent.request.encode.length := by
    rw [TransactionRequest.encode, List.length_append]
    exact Nat.le_add_right _ _
  obtain ⟨waiting, screen, htrace, hscreen, -, -⟩ :=
    sent.reviewed hhex hheld rfl (hdelivered device _ locals [] hbytes hfirst)
  exact ⟨screen, device, waiting, _, locals, [], hbytes, hfirst, htrace, hscreen⟩

end SentTransfer

/-- Two screens for transfers of one ticker say the same exactly when the transfers are the
same in what is spent and where it goes, whichever wallets and devices they are for. -/
theorem screens_identify_transfers {sdk : Sdk}
    (hhex : ∀ input, sdk.formatHex input = hexText input) {first second : SentTransfer}
    {key key' : Hash}
    (hkey : getPublicKey sdk first.request.accountNumber.toNat = some key)
    (hkey' : getPublicKey sdk second.request.accountNumber.toNat = some key')
    (hdecimals : first.request.decimals = second.request.decimals)
    (hticker : first.request.ticker = second.request.ticker) {screen screen' : Screen}
    (h : first.PutsUp sdk screen) (h' : second.PutsUp sdk screen') :
    screen.text = screen'.text ↔ first.SameTransfer second := by
  obtain ⟨derived, hshows⟩ := h.shows hhex hkey
  obtain ⟨derived', hshows'⟩ := h'.shows hhex hkey'
  exact hshows.text_iff hshows' hdecimals hticker

/-- The transfer of the call, sent by a plain wallet. -/
def walletMessage : TransferMessage :=
  .walletV3 ⟨0x64F9E1D5, 3, .amount, true, false, .none, 0, 0⟩

def walletPayload : List UInt8 :=
  serialize plainHeader 0x02 (walletMessage.root :: walletMessage.below someTransfer)

theorem walletPayload_fits : walletPayload.length < maxDataLen := by decide +kernel

def sentPlain : SentTransfer where
  transfer := someTransfer
  message := walletMessage
  request :=
    { callRequest with
      originWalletType := 0
      chainId := none
      payload := walletPayload
      originWalletType_valid := someRequest.originWalletType_valid
      payload_length := walletPayload_fits }
  family := .walletV3
  header := plainHeader
  tail := []
  family_eq := by decide
  suits := rfl
  decimals_le := by decide
  ticker_length := by decide
  ticker_ne_zero := by decide
  line_fits := by decide
  payload_eq := by rw [List.append_nil]; rfl

theorem screens_identify_transfers_call : ∃ screen screen' : Screen,
    sentCall.PutsUp testSdk screen ∧ sentPlain.PutsUp testSdk screen' ∧
      screen.text = screen'.text := by
  obtain ⟨key, hkey⟩ := Option.isSome_iff_exists.mp
    (show (getPublicKey testSdk 7).isSome from by decide)
  obtain ⟨screen, h⟩ := sentCall.exists_screen (fun _ => rfl) hkey .initial zeroLocals
    (by decide +kernel)
  obtain ⟨screen', h'⟩ := sentPlain.exists_screen (fun _ => rfl) hkey .initial zeroLocals
    (by decide +kernel)
  exact ⟨screen, screen', h, h', (@screens_identify_transfers testSdk (fun _ => rfl) sentCall
    sentPlain _ _ hkey hkey rfl rfl _ _ h h').mpr ⟨rfl, fun _ => rfl, rfl, rfl⟩⟩

end EverscaleLedger.Properties
