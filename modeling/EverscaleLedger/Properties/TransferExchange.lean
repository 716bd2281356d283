import EverscaleLedger.Properties.ClientExchange
import EverscaleLedger.Properties.HonestTransfer
import EverscaleLedger.Properties.SignedTree

/-! A plain transfer from the client to the signature: however it is sent and whatever
the device did before, the screen says what is transferred to whom, and an approval signs
the tree of cells of the message. -/
namespace EverscaleLedger.Properties

open Library Source

/-! The strings on the screen. -/

/-- The strings of a flow, as `prepare_to_sign` wrote them. -/
def writtenText (flow : Flow) (display : Display) : List (List UInt8) :=
  let text (field : Option (List UInt8)) := cString (field.getD [])
  match flow with
  | .transfer => [text display.amountStr, text display.addressStr]
  | .deploy => [text display.addressStr]
  | .confirm => [text display.transactionIdStr]
  | .burn => [text display.amountStr]

/-- The field was written, with a terminator. -/
def Terminated (field : Option (List UInt8)) : Prop := ∃ bytes, field = some bytes ∧ 0 ∈ bytes

def FlowTerminated (flow : Flow) (display : Display) : Prop :=
  match flow with
  | .transfer => Terminated display.amountStr ∧ Terminated display.addressStr
  | .deploy => Terminated display.addressStr
  | .confirm => Terminated display.transactionIdStr
  | .burn => Terminated display.amountStr

theorem cString_append {bytes : List UInt8} (h : 0 ∈ bytes) (rest : List UInt8) :
    cString (bytes ++ rest) = cString bytes := by
  induction bytes with
  | nil => cases h
  | cons byte bytes ih =>
    unfold cString at ih ⊢
    by_cases hzero : byte = 0
    · simp [hzero]
    · have hmem : 0 ∈ bytes := List.mem_of_ne_of_mem (Ne.symm hzero) h
      simpa [hzero] using ih hmem

theorem read_add (memory : Memory) (offset first second : Nat) :
    memory.read ⟨offset, first + second⟩ =
      memory.read ⟨offset, first⟩ ++ memory.read ⟨offset + first, second⟩ := by
  unfold Memory.read
  rw [List.range_add, List.map_append, List.map_map]
  simp [Function.comp_def, Nat.add_assoc]

/-- A string ends at its terminator, whatever comes behind the field. -/
theorem textAt_eq {dc : DataContext} {field : Field} {bytes : List UInt8}
    (h : dc.read ⟨field.offset, bytes.length⟩ = bytes) (hzero : 0 ∈ bytes)
    (hle : field.offset + bytes.length ≤ dataContextSize) : textAt dc field = cString bytes := by
  have hsize : dataContextSize - field.offset =
      bytes.length + (dataContextSize - field.offset - bytes.length) := by omega
  rw [textAt, hsize, read_add, h, cString_append hzero]

theorem read_written (memory : Memory) (start : Nat) (bytes : List UInt8) :
    (memory.write start bytes).read ⟨start, bytes.length⟩ = bytes :=
  @Memory.read_write_self ⟨start, bytes.length⟩ bytes memory rfl

theorem apart_of_fields {first second : Field} {start length : Nat} (hstart : start ≤ first.size)
    (hlength : length ≤ second.size) (h : first.Apart second.offset second.size) :
    Field.Apart ⟨first.offset, start⟩ second.offset length := by
  unfold Field.Apart at h ⊢
  simp only
  omega

/-- The strings are in the union as they were written. -/
theorem storePrepared_strings (dc : DataContext) {prepared : Prepared}
    (hfit : StringsFit prepared.decoded.display)
    (hsign : prepared.toSign.length ≤ DataContext.signTrContext.toSign.size) :
    (∀ bytes ∈ prepared.decoded.display.addressStr, (storePrepared dc prepared).read
      ⟨DataContext.signTrContext.addressStr.offset, bytes.length⟩ = bytes) ∧
    (∀ bytes ∈ prepared.decoded.display.amountStr, (storePrepared dc prepared).read
      ⟨DataContext.signTrContext.amountStr.offset, bytes.length⟩ = bytes) ∧
    (∀ bytes ∈ prepared.decoded.display.transactionIdStr, (storePrepared dc prepared).read
      ⟨DataContext.signTrContext.transactionIdStr.offset, bytes.length⟩ = bytes) := by
  obtain ⟨haddress, hamount, hid⟩ := hfit
  unfold storePrepared
  refine ⟨fun bytes hbytes => ?_, fun bytes hbytes => ?_, fun bytes hbytes => ?_⟩
  · have hlength := haddress bytes hbytes
    rw [Memory.read_write_apart _ (apart_of_fields hlength hsign (by decide)),
      writeIfSome_apart fun block hblock => apart_of_fields hlength (hid block hblock) (by decide),
      writeIfSome_apart fun block hblock => apart_of_fields hlength (hamount block hblock) (by decide),
      hbytes]
    exact read_written ..
  · have hlength := hamount bytes hbytes
    rw [Memory.read_write_apart _ (apart_of_fields hlength hsign (by decide)),
      writeIfSome_apart fun block hblock => apart_of_fields hlength (hid block hblock) (by decide),
      hbytes]
    exact read_written ..
  · rw [Memory.read_write_apart _ (apart_of_fields (hid bytes hbytes) hsign (by decide)), hbytes]
    exact read_written ..

/-- The screen shows the strings as they were written. -/
theorem transactionText_storePrepared (dc : DataContext) {prepared : Prepared}
    (hfit : StringsFit prepared.decoded.display)
    (hsign : prepared.toSign.length ≤ DataContext.signTrContext.toSign.size)
    (hterminated : FlowTerminated prepared.decoded.flow prepared.decoded.display) :
    transactionText prepared.decoded.flow (storePrepared dc prepared) =
      writtenText prepared.decoded.flow prepared.decoded.display := by
  obtain ⟨haddress, hamount, hid⟩ := storePrepared_strings dc hfit hsign
  have htext : ∀ (field : Field) (written : Option (List UInt8)), Terminated written →
      (∀ bytes ∈ written, bytes.length ≤ field.size) →
      (∀ bytes ∈ written, (storePrepared dc prepared).read ⟨field.offset, bytes.length⟩ = bytes) →
      field.offset + field.size ≤ dataContextSize →
      textAt (storePrepared dc prepared) field = cString (written.getD []) := by
    rintro field _ ⟨bytes, rfl, hzero⟩ hsize hread hend
    have hlength := hsize bytes rfl
    exact textAt_eq (hread bytes rfl) hzero (Nat.le_trans (Nat.add_le_add_left hlength _) hend)
  generalize hflow : prepared.decoded.flow = flow at hterminated ⊢
  unfold transactionText writtenText
  cases flow with
  | transfer =>
    simp only
    rw [htext _ _ hterminated.1 hfit.amountStr hamount (by decide),
      htext _ _ hterminated.2 hfit.addressStr haddress (by decide)]
  | deploy =>
    simp only
    rw [htext _ _ hterminated hfit.addressStr haddress (by decide)]
  | confirm =>
    simp only
    rw [htext _ _ hterminated hfit.transactionIdStr hid (by decide)]
  | burn =>
    simp only
    rw [htext _ _ hterminated hfit.amountStr hamount (by decide)]

theorem cString_terminated {text : List UInt8} (h : ∀ c ∈ text, c ≠ 0) :
    Terminated (some (text ++ [0])) ∧ cString (text ++ [0]) = text := by
  refine ⟨⟨_, rfl, by simp⟩, ?_⟩
  exact (cString_append_zeros text 1).trans (cString_of_ne_zero h)

/-! The lines of a transfer. -/

theorem addressText_ne_zero (t : Transfer) : ∀ c ∈ t.addressText, c ≠ 0 := by
  have hwc := @Bits.forall_byte (fun wc => ∀ c ∈ workchainText wc, c ≠ 0) (by decide +kernel)
    t.wc.toUInt8
  unfold Transfer.addressText
  rw [← workchainText_eq]
  intro c hc
  obtain hc | hc := List.mem_append.mp hc
  · exact hwc c hc
  · exact hexText_ne_zero t.account.toList c hc

/-- A line that fits is what its field reads. -/
theorem Spending.IsLine.field_text {spending : Spending} {decimals number : Nat}
    {ticker line : List UInt8} (h : spending.IsLine decimals number ticker line)
    (hnumber : number < 10 ^ 36) (hticker : ∀ c ∈ ticker, c ≠ 0)
    (hfits : textLength number decimals + 1 + ticker.length < amountStrSize) :
    Terminated (some (amountField line)) ∧ cString (amountField line) = line := by
  have hline : line.length < amountStrSize ∧ ∀ c ∈ line, c ≠ 0 := by
    cases spending with
    | amount =>
      obtain ⟨whole, fraction, hcanonical, rfl⟩ := h
      have hlength := length_amountText hcanonical
      have htext : CanonicalText decimals (amountText whole fraction) number := by
        refine ⟨hnumber, ?_, whole, fraction, hcanonical, rfl⟩
        rw [hlength]
        simp only [amountStrSize] at hfits
        change _ ≤ 39
        omega
      constructor
      · rw [List.length_append, List.length_append, hlength]
        exact hfits
      · intro c hc
        obtain hc | hc := List.mem_append.mp hc
        · obtain hc | hc := List.mem_append.mp hc
          · exact canonicalText_ne_zero htext c hc
          · obtain rfl := List.mem_singleton.mp hc
            decide
        · exact hticker c hc
    | allBalance =>
      rw [show line = allBalanceText from h]
      decide
    | allBalanceAndDelete =>
      rw [show line = allBalanceAndDeleteText from h]
      decide
  refine ⟨⟨_, rfl, ?_⟩, ?_⟩
  · refine List.mem_append_right _ (List.mem_replicate.mpr ⟨?_, rfl⟩)
    have := hline.1
    omega
  · rw [amountField, cString_append_zeros, cString_of_ne_zero hline.2]

/-! The tree of a transfer. -/

/-- The tree of cells of a message, with bits in front of those of its root. -/
def TransferMessage.tree (front : List Bool) (t : Transfer) : TransferMessage → CellTree
  | walletV3 m => .cell (front ++ walletV3Bits m.expireAt m.seqno m.spending.flags)
      [.cell ((m.header t).bits ++ [false, false]) []]
  | call header function => .cell (front ++ header.bits function.id)
      [.cell (argumentBits t function) [.cell [] []]]

theorem RawCell.ordinary_canonical {bits : List Bool} {refs : List UInt8}
    (hbits : bits.length < 1024) (hrefs : refs.length < 8) (hle : refs.length ≤ maxReferencesCount) :
    (RawCell.ordinary bits refs hbits hrefs).Canonical := by
  have hencodes := RawCell.ordinary_encodes hbits hrefs
  refine ⟨rfl, hle, ?_⟩
  rw [hencodes.bits_eq]
  exact hencodes

@[simp] theorem RawCell.ordinary_bits {bits : List Bool} {refs : List UInt8}
    (hbits : bits.length < 1024) (hrefs : refs.length < 8) :
    (RawCell.ordinary bits refs hbits hrefs).bits = bits :=
  (RawCell.ordinary_encodes hbits hrefs).bits_eq

@[simp] theorem RawCell.ordinary_refs {bits : List Bool} {refs : List UInt8}
    (hbits : bits.length < 1024) (hrefs : refs.length < 8) :
    (RawCell.ordinary bits refs hbits hrefs).refs = refs :=
  (RawCell.ordinary_encodes hbits hrefs).refs

namespace TransferMessage

variable (message : TransferMessage) (t : Transfer)

theorem wholeTree : WholeTree (message.root :: message.below t) := by
  cases message with
  | walletV3 m =>
    constructor
    · intro c hc
      simp only [root, below, List.mem_cons, List.not_mem_nil, or_false] at hc
      obtain rfl | rfl := hc
      · exact RawCell.ordinary_canonical _ _ (by decide)
      · exact RawCell.ordinary_canonical _ _ (by decide)
    · simp [root, below]
  | call header function =>
    constructor
    · intro c hc
      simp only [root, below, List.mem_cons, List.not_mem_nil, or_false] at hc
      obtain rfl | rfl | rfl := hc
      · exact RawCell.ordinary_canonical _ _ (by decide)
      · exact RawCell.ordinary_canonical _ _ (by decide)
      · exact RawCell.ordinary_canonical _ _ (by decide)
    · simp [root, below]

theorem signedTree_eq (front : List Bool) :
    signedTree front message.root (message.below t) = message.tree front t := by
  cases message with
  | walletV3 m =>
    simp [signedTree, tree, root, below, treeFrom]
  | call header function =>
    simp [signedTree, tree, root, below, treeFrom]

/-- The header of a call does not end with a byte. -/
theorem root_off {family : WalletFamily} (hsuits : message.Suits family)
    (hfamily : family = .prefixedContract) : message.root.bits.length % 8 ≠ 0 := by
  cases message with
  | walletV3 m =>
    rw [show family = _ from hsuits] at hfamily
    cases hfamily
  | call header function =>
    rw [(call_encodes header function).bits_eq]
    unfold CallHeader.bits CallHeader.publicKeyBits
    cases header.publicKey <;> simp

end TransferMessage

/-! Transfers as they are sent. -/

theorem Parsed.unique {bc : BocContext} {first second : List RawCell} (h : Parsed bc first)
    (h' : Parsed bc second) : first = second := by
  apply List.ext_getElem (h.count.symm.trans h'.count)
  intro i hi hi'
  obtain ⟨_, hholds⟩ := h.holds i _ (List.getElem?_eq_getElem hi)
  obtain ⟨_, hholds'⟩ := h'.holds i _ (List.getElem?_eq_getElem hi')
  exact hholds.unique hholds'

/-- A transfer and the request that carries it: for a wallet that sends such messages,
with decimals and a ticker that the amount line has room for. -/
structure SentTransfer where
  transfer : Transfer
  message : TransferMessage
  request : TransactionRequest
  family : WalletFamily
  header : BocHeader
  tail : List UInt8
  family_eq : (WalletType.ofByte (request.currentWalletType.getD request.originWalletType)).map
    WalletType.family = some family
  suits : message.Suits family
  decimals_le : request.decimals.toNat ≤ 37
  ticker_length : request.ticker.length ≤ 9
  ticker_ne_zero : ∀ c ∈ request.ticker, c ≠ 0
  line_fits : textLength transfer.amount request.decimals.toNat + 1 + request.ticker.length <
    amountStrSize
  payload_eq : request.payload =
    header.bytes (UInt8.ofNat (message.root :: message.below transfer).length) ++
      (serializeCells (message.root :: message.below transfer) ++ tail)

namespace SentTransfer

variable (sent : SentTransfer)

/-- What the wallet holds of the request, with the address that is derived for it. -/
def signing (derived : Hash) : SigningRequest := (sent.request.incoming derived).request

/-- The chain id, where there is one, and the hash of the tree that the wallet signs. -/
def signedBytes (sdk : Sdk) (derived : Hash) : List UInt8 :=
  sent.request.chainIdBytes ++
    ((sent.message.tree ((sent.signing derived).front sent.family) sent.transfer).digest
      sdk.sha256).hash.toList

theorem family_signing (derived : Hash) : (sent.signing derived).family = some sent.family :=
  sent.family_eq

theorem toSignPrefix_signing (derived : Hash) :
    toSignPrefix (sent.signing derived).ctx = sent.request.chainIdBytes := by
  unfold toSignPrefix TransactionRequest.chainIdBytes TransactionRequest.optional
  change (if sent.request.chainId.isSome = true then _ else _) = _
  cases hchain : sent.request.chainId with
  | none => rfl
  | some chainId => simp [signing, TransactionRequest.incoming, hchain]

theorem showsTicker (derived : Hash) : ShowsTicker (sent.signing derived).ctx sent.request.ticker where
  decimals := sent.decimals_le
  field := rfl
  length_pos := sent.request.ticker_length.1
  length_le := sent.ticker_length
  ne_zero := sent.ticker_ne_zero

/-- The message is decoded to the transfer, and hashed to the tree. -/
theorem prepares {sdk : Sdk} (hhex : ∀ input, sdk.formatHex input = hexText input)
    (locals : Locals) (derived : Hash) :
    ∃ p, (sent.signing derived).prepare sdk locals BocContext.zero
        (received sent.request.payload) = .ok p ∧
      Displays sent.transfer sent.message.spending sent.request.decimals.toNat
        sent.request.ticker p.decoded.flow p.decoded.display ∧
      p.toSign = sent.signedBytes sdk derived := by
  have hfamily := sent.family_signing derived
  have haddress : (sent.signing derived).prependAddress.length = addressLength :=
    Vector.length_toList ..
  have hboc := sent.message.ordinaryBoc sent.transfer
  have hcursor : (received sent.request.payload).getCursor = _ := sent.payload_eq
  obtain ⟨parsed, hparsed, hends⟩ := hboc.endsAs sdk locals hfamily
    (fun hprefixed => sent.message.leavesRoom sent.suits hprefixed haddress)
    (show BocContext.zero.publicKeyCellIndex = 0 from rfl) sent.header sent.tail hcursor
  obtain ⟨d, hdecode, hdisplays⟩ := TransferMessage.decodes hhex (sent.showsTicker derived)
    sent.line_fits sent.suits hparsed
  rw [hdecode] at hends
  obtain ⟨p, hp, rfl⟩ := hends
  refine ⟨p, hp, hdisplays, ?_⟩
  obtain ⟨next, parsed', hparse, hparsed', -⟩ :=
    hboc.parsed BocContext.zero sent.header sent.tail hcursor
  obtain ⟨reception, hreception⟩ := exists_reception hparse
  have hcells : reception.cells = sent.message.root :: sent.message.below sent.transfer := by
    have hsame := reception.parsed_cells
    rw [hreception] at hsame
    exact hsame.unique hparsed'
  obtain ⟨root, signed, toHash, hroot, hprepares, hsigned⟩ := reception.prepares hfamily hp
  rw [hcells] at hroot
  obtain rfl := Option.some.inj hroot
  have hwhole := sent.message.wholeTree sent.transfer
  have hencodes := hsigned.encodes hprepares (hwhole.canonical _ List.mem_cons_self) haddress
    (sent.message.root_off sent.suits)
  rw [hprepares.toSign, hsigned.hash_eq hencodes hcells hwhole, sent.toSignPrefix_signing,
    sent.message.signedTree_eq]
  rfl

end SentTransfer

/-- The call of `prepare_to_sign` on what is held of a transaction. -/
theorem Incoming.HeldIn.prepareTransaction_eq {incoming : Incoming} {device : Device}
    (h : incoming.HeldIn device.dataContext) (hbc : device.bocContext = BocContext.zero)
    (hne : incoming.payload ≠ []) (sdk : Sdk) (locals : Locals) :
    prepareTransaction sdk locals device =
      incoming.request.prepare sdk locals BocContext.zero (received incoming.payload) := by
  have hinit : ByteStream.init incoming.payload = .ok (received incoming.payload) := by
    unfold ByteStream.init
    rw [validate_of_true (mt List.length_eq_zero_iff.mp hne)]
    rfl
  simp only [prepareTransaction]
  rw [h.loadMany_eq, ok_bind, hinit, ok_bind, h.request.prepare_eq, ← hbc]
  rfl

namespace SentTransfer

variable (sent : SentTransfer)

/-- The screen of the transfer: the amount and the recipient, and what waits for the
approval. -/
structure Shows (sdk : Sdk) (derived : Hash) (screen : Screen) : Prop where
  callback : screen.callback = .validateTransaction
  text : ∃ line, sent.message.spending.IsLine sent.request.decimals.toNat sent.transfer.amount
    sent.request.ticker line ∧ screen.text = [line, sent.transfer.addressText]
  computed : screen.computed = .transactionSignature sent.request.accountNumber.toNat
    (sent.signedBytes sdk derived)

/-- A device that holds the request puts up the screen of the transfer. -/
theorem finishTransaction_shows {sdk : Sdk} (hhex : ∀ input, sdk.formatHex input = hexText input)
    {derived : Hash} {device : Device}
    (h : (sent.request.incoming derived).HeldIn device.dataContext)
    (hbc : device.bocContext = BocContext.zero) (locals : Locals) :
    ∃ next screen, finishTransaction sdk locals device = .ok (next, none) ∧
      next.screen = some screen ∧ sent.Shows sdk derived screen := by
  obtain ⟨p, hp, hdisplays, hsign⟩ := sent.prepares hhex locals derived
  have hne : (sent.request.incoming derived).payload ≠ [] := by
    change sent.request.payload ≠ []
    rw [sent.payload_eq]
    exact List.append_ne_nil_of_left_ne_nil
      (show sent.header.bytes _ ≠ [] from List.cons_ne_nil _ _) _
  have hprepare := (h.prepareTransaction_eq hbc hne sdk locals).trans hp
  obtain ⟨hfit, hsize⟩ := prepareTransaction_fits hprepare
  obtain ⟨line, hline, hamount⟩ := hdisplays.amount
  obtain ⟨hlineField, hlineText⟩ := hline.field_text sent.transfer.amount_lt sent.ticker_ne_zero
    sent.line_fits
  obtain ⟨haddressField, haddressText⟩ := cString_terminated (addressText_ne_zero sent.transfer)
  have htext : transactionText p.decoded.flow (storePrepared device.dataContext p) =
      [line, sent.transfer.addressText] := by
    rw [transactionText_storePrepared _ hfit hsize]
    · rw [hdisplays.flow]
      simp only [writtenText, hamount, hdisplays.address, Option.getD_some, hlineText,
        haddressText]
    · rw [hdisplays.flow]
      simp only [FlowTerminated, hamount, hdisplays.address]
      exact ⟨hlineField, haddressField⟩
  have haccount : (storePrepared device.dataContext p).readUint
      DataContext.signTrContext.accountNumber = sent.request.accountNumber.toNat := by
    rw [Memory.readUint, storePrepared_read hprepare _ (by decide)]
    exact h.accountNumber
  have hfinish : finishTransaction sdk locals device = .ok (⟨p.bc, storePrepared device.dataContext p,
      some ⟨.validateTransaction, transactionText p.decoded.flow (storePrepared device.dataContext p),
        .transactionSignature ((storePrepared device.dataContext p).readUint
          DataContext.signTrContext.accountNumber) p.toSign⟩⟩, none) := by
    simp only [finishTransaction]
    rw [hprepare]
    rfl
  refine ⟨_, _, hfinish, rfl, rfl, ⟨line, hline, htext⟩, ?_⟩
  rw [haccount, hsign]

/-- When the request has arrived, its screen waits. -/
theorem reviewed {sdk : Sdk} (hhex : ∀ input, sdk.formatHex input = hexText input) {derived : Hash}
    {device held : Device} (hheld : (sent.request.incoming derived).HeldIn held.dataContext)
    (hbc : held.bocContext = BocContext.zero) {commands : List (Command × Locals)}
    (hcame : Delivered sdk device commands held) :
    ∃ waiting screen, Trace (step sdk) device (exchange ⟨none, none⟩ commands) waiting ∧
      waiting.screen = some screen ∧ sent.Shows sdk derived screen ∧ Faithful waiting := by
  obtain ⟨waiting, htrace, ⟨screen, hscreen, hshows⟩, hfaithful⟩ := hcame.trace ⟨none, none⟩
    (fun next => (∃ screen, next.screen = some screen ∧ sent.Shows sdk derived screen) ∧
      Faithful next) (by
        intro last cmd locals hhandle
        obtain ⟨next, screen, hfinish, hscreen, hshows⟩ :=
          sent.finishTransaction_shows hhex hheld hbc locals
        refine ⟨next, ?_, ⟨screen, hscreen, hshows⟩, finishTransaction_faithful hfinish⟩
        simp only [step]
        rw [hhandle, hfinish])
  exact ⟨waiting, screen, htrace, hscreen, hshows, hfaithful⟩

end SentTransfer

/-- However a transfer is sent, whatever the device did before: the screen shows the amount
and the recipient, and an approval signs the tree of cells of the message. -/
theorem transfer_exchange (sdk : Sdk) (hhex : ∀ input, sdk.formatHex input = hexText input)
    (sent : SentTransfer) {publicKey : Hash}
    (hkey : getPublicKey sdk sent.request.accountNumber.toNat = some publicKey) :
    ∃ derived : Hash,
      walletAddress sdk sent.request.accountNumber.toNat sent.request.originWalletType =
        .ok derived ∧
      ∀ (device : Device) (chunk : Chunk) (locals : Locals) (rest : List (Chunk × Locals)),
        sentBytes ((chunk, locals) :: rest) = sent.request.encode →
        sent.request.header.length ≤ chunk.val.length →
          ∃ waiting screen approved,
            Trace (step sdk) device
              (exchange ⟨none, none⟩ (transmit true ((chunk, locals) :: rest))) waiting ∧
            waiting.screen = some screen ∧ sent.Shows sdk derived screen ∧
            step sdk waiting (.answer true) = some (approved,
              signedEffect sdk sent.request.accountNumber.toNat (sent.signedBytes sdk derived)) := by
  obtain ⟨derived, dc, hderived, hheld, hdelivered⟩ := sent.request.held hkey
  refine ⟨derived, hderived, fun device chunk locals rest hbytes hfirst => ?_⟩
  obtain ⟨waiting, screen, htrace, hscreen, hshows, hfaithful⟩ :=
    sent.reviewed hhex hheld rfl (hdelivered device chunk locals rest hbytes hfirst)
  have happroved : step sdk waiting (.answer true) = _ := hfaithful.approved hscreen
  rw [hshows.computed] at happroved
  exact ⟨waiting, screen, _, htrace, hscreen, hshows, happroved⟩

/-! A transfer of a wallet that signs its address, in two chunks. -/

def callPayload : List UInt8 :=
  serialize plainHeader 0x03 (someCall.root :: someCall.below someTransfer)

theorem callPayload_fits : callPayload.length < maxDataLen := by decide +kernel

theorem everWallet_valid : (WalletType.ofByte 1).isSome := by decide

def callRequest : TransactionRequest where
  accountNumber := 7
  originWalletType := 1
  decimals := 9
  ticker := ascii ['E', 'V', 'E', 'R']
  currentWalletType := none
  workchainId := some 0
  address := none
  chainId := some (Vector.replicate 4 0x2A)
  payload := callPayload
  originWalletType_valid := everWallet_valid
  ticker_length := someRequest.ticker_length
  payload_length := callPayload_fits

def sentCall : SentTransfer where
  transfer := someTransfer
  message := someCall
  request := callRequest
  family := .prefixedContract
  header := plainHeader
  tail := []
  family_eq := by decide
  suits := show WalletFamily.prefixedContract ≠ .walletV3 by decide
  decimals_le := by decide
  ticker_length := by decide
  ticker_ne_zero := by decide
  line_fits := by decide
  payload_eq := by rw [List.append_nil]; rfl

theorem callHalves_fit :
    (callRequest.encode.take 30 ≠ [] ∧ (callRequest.encode.take 30).length < 256) ∧
      callRequest.encode.drop 30 ≠ [] ∧ (callRequest.encode.drop 30).length < 256 := by
  decide +kernel

theorem transfer_exchange_call :
    ∃ (derived : Hash) (waiting : Device) (screen : Screen) (approved : Device),
      Trace (step testSdk) .initial (exchange ⟨none, none⟩
        (transmit true [(⟨callRequest.encode.take 30, callHalves_fit.1⟩, zeroLocals),
          (⟨callRequest.encode.drop 30, callHalves_fit.2⟩, zeroLocals)])) waiting ∧
      waiting.screen = some screen ∧ sentCall.Shows testSdk derived screen ∧
      step testSdk waiting (.answer true) =
        some (approved, signedEffect testSdk 7 (sentCall.signedBytes testSdk derived)) := by
  obtain ⟨publicKey, hkey⟩ := Option.isSome_iff_exists.mp
    (show (getPublicKey testSdk 7).isSome from by decide)
  obtain ⟨derived, -, hall⟩ := transfer_exchange testSdk (fun _ => rfl) sentCall hkey
  obtain ⟨waiting, screen, approved, htrace, hscreen, hshows, happroved⟩ :=
    hall .initial ⟨callRequest.encode.take 30, callHalves_fit.1⟩ zeroLocals
      [(⟨callRequest.encode.drop 30, callHalves_fit.2⟩, zeroLocals)]
      (by decide +kernel) (by decide +kernel)
  exact ⟨derived, waiting, screen, approved, htrace, hscreen, hshows, happroved⟩

end EverscaleLedger.Properties
