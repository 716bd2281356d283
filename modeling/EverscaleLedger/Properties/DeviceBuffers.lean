import EverscaleLedger.Properties.AddressHistory
import EverscaleLedger.Properties.Chunks
import EverscaleLedger.Properties.PrefixBuffer
import EverscaleLedger.Properties.StateInit

/-! Whole runs of the device inside its buffers. A command can leave one only where the
last chunk of a transaction is handled. -/
namespace EverscaleLedger.Properties

open Library Source

/-! Addresses. -/

/-- The buffer of the public key cell has its size. -/
def KeyBuffer (bc : BocContext) : Prop := bc.publicKeyCellData.length = maxPublicKeyCellDataSize

theorem keyBuffer_zero : KeyBuffer BocContext.zero := List.length_replicate

theorem hashWallet_inBounds (sdk : Sdk) (publicKey : Hash) (type : WalletType)
    (wallet : MultisigWallet) {bc : BocContext} (h : KeyBuffer bc) :
    InBounds KeyBuffer (hashWallet sdk publicKey (copiedWallet (templateOf type) wallet bc)) := by
  have htakes := templateOf_takesKey type
  generalize templateOf type = template at htakes
  have hsize := htakes.size
  have hle : template.keyCell.data.length ≤ 36 := template.keyCell_le
  have hbounds := template.length_bounds
  have hkey : publicKey.toList.length = 32 := Vector.length_toList
  have hlabel : (copiedWallet template wallet bc).publicKeyLabelSizeBits < 32 := by
    change template.labelBits < 32
    omega
  obtain ⟨data, hinsert, hlength, -⟩ := insertPublicKey_bits publicKey
    (length_copiedWallet template wallet h) template.label_inside.1 hlabel
  have hcount : (copiedWallet template wallet bc).publicKeyCellIndex + 1 =
      template.cells.length := Nat.sub_add_cancel (Nat.le_of_lt hbounds.1)
  unfold hashWallet
  rw [hinsert, ok_bind, hcount]
  refine (calcCellHashes_inBounds fun i hi => ?_).mono fun result hsame =>
    (congrArg List.length hsame.publicKeyCellData).trans hlength
  have hc := List.getElem?_eq_getElem hi
  obtain ⟨rest, hholds⟩ : ∃ rest, Holds ((copiedWallet template wallet bc).cells i)
      template.cells[i] rest := by
    have hstored := storeCells_holds 0 template.cells [] { bc with cellsCount := 0 } i _ hc
    rwa [Nat.zero_add, List.append_nil] at hstored
  refine ⟨_, rest, hholds, Nat.lt_of_lt_of_le (Nat.lt_of_lt_of_le hi hbounds.2) (by decide),
    fun hpruned => absurd hpruned (template.ordinary _ (List.getElem_mem hi)), fun hboth => ?_⟩
  obtain rfl : i = template.cells.length - 1 := hboth.2
  rw [Option.some.inj (hc.symm.trans template.keyCell_last), hlength]
  exact template.keyCell_le

theorem computeWalletV3Address_inBounds (sdk : Sdk) (accountNumber : Nat) :
    InBounds (fun _ => True) (computeWalletV3Address sdk accountNumber) := by
  unfold computeWalletV3Address
  cases getPublicKey sdk accountNumber with
  | none => exact inBounds_thrown _
  | some publicKey => exact inBounds_ok trivial

theorem computeEverWalletAddress_inBounds (sdk : Sdk) (accountNumber : Nat) :
    InBounds (fun _ => True) (computeEverWalletAddress sdk accountNumber) := by
  unfold computeEverWalletAddress
  cases getPublicKey sdk accountNumber with
  | none => exact inBounds_thrown _
  | some publicKey => exact inBounds_ok trivial

/-- An address is computed inside the buffers, whatever the tables hold. -/
theorem getAddress_inBounds (sdk : Sdk) (accountNumber : Nat) (walletType : UInt8)
    {bc : BocContext} (h : KeyBuffer bc) (dc : DataContext) :
    InBounds (fun result => KeyBuffer result.2.1)
      (getAddress sdk accountNumber walletType bc dc) := by
  cases htype : WalletType.ofByte walletType with
  | none =>
    unfold getAddress
    rw [htype]
    exact inBounds_thrown _
  | some type =>
    cases hwallet : multisigWallet type with
    | none =>
      unfold getAddress
      rw [htype]
      cases type with
      | walletV3 => exact (computeWalletV3Address_inBounds sdk _).bind fun _ _ => inBounds_ok h
      | everWallet => exact (computeEverWalletAddress_inBounds sdk _).bind fun _ _ => inBounds_ok h
      | _ => cases hwallet
    | some wallet =>
      rw [getAddress_multisig sdk accountNumber htype hwallet bc dc, computeMultisigAddress_eq,
        MultisigWallet.load_eq hwallet h, ok_bind]
      cases getPublicKey sdk accountNumber with
      | none => exact inBounds_thrown _
      | some publicKey =>
        apply (hashWallet_inBounds sdk publicKey type wallet h).bind
        intro hashed hbuffer
        exact inBounds_ok hbuffer

/-! Chunks. -/

theorem takeField_inBounds (cdata : List UInt8) (offset count : Nat) :
    InBounds (fun _ => True) (takeField cdata offset count) := by
  unfold takeField
  apply (validate_inBounds _ _).bind
  intro _ hlength
  apply (loadMany_inBounds _).bind
  · intro _ _
    exact inBounds_ok trivial
  · rw [List.length_drop]
    omega

theorem takeIfPresent_inBounds (cdata : List UInt8) (offset count : Nat) (present : Prop)
    [Decidable present] (default : List UInt8) :
    InBounds (fun _ => True) (takeIfPresent cdata offset count present default) :=
  inBounds_ite (takeField_inBounds cdata offset count) (inBounds_ok trivial)

theorem readFirstChunk_inBounds (sdk : Sdk) (cdata : List UInt8) {bc : BocContext}
    (h : KeyBuffer bc) (dc : DataContext) :
    InBounds (fun _ => True) (readFirstChunk sdk cdata bc dc) := by
  have htake := takeField_inBounds cdata
  have hpresent := takeIfPresent_inBounds cdata
  unfold readFirstChunk
  apply (htake 0 4).bind
  rintro ⟨account, _⟩ -
  apply (htake _ 1).bind
  rintro ⟨originWalletType, _⟩ -
  apply (htake _ 1).bind
  rintro ⟨decimals, _⟩ -
  apply (htake _ 1).bind
  rintro ⟨tickerLen, _⟩ -
  apply (validate_inBounds _ _).bind
  intro _ _
  apply (htake _ _).bind
  rintro ⟨ticker, _⟩ -
  apply (htake _ 1).bind
  rintro ⟨metadata, _⟩ -
  apply (hpresent _ 1 _ _).bind
  rintro ⟨currentWalletType, _⟩ -
  apply (getAddress_inBounds sdk _ _ h _).bind
  rintro ⟨address, left, written⟩ -
  apply (hpresent _ 1 _ _).bind
  rintro ⟨wc, _⟩ -
  apply (hpresent _ _ _ _).bind
  rintro ⟨prependAddress, _⟩ -
  apply inBounds_ite
  · apply (htake _ _).bind
    intro _ _
    exact inBounds_ok trivial
  · exact inBounds_ok trivial

theorem appendPayload_inBounds (payload : List UInt8) (dc : DataContext) :
    InBounds (fun _ => True) (appendPayload payload dc) := by
  unfold appendPayload
  apply inBounds_ite
  · apply (validate_inBounds _ _).bind
    intro _ _
    exact inBounds_ok trivial
  · exact inBounds_ok trivial

theorem receiveChunk_inBounds (sdk : Sdk) (cdata : List UInt8) (isFirstChunk : Bool)
    (device : Device) : InBounds (fun _ => True) (receiveChunk sdk cdata isFirstChunk device) := by
  have hpayload : ∀ (offset : Nat) (bc : BocContext) (dc : DataContext),
      InBounds (fun _ => True) (do
        let dc ← appendPayload (cdata.drop offset) dc
        pure ⟨bc, dc, device.screen⟩ : Outcome Device) := fun offset bc dc =>
    (appendPayload_inBounds _ dc).bind fun _ _ => inBounds_ok trivial
  cases isFirstChunk with
  | false => exact hpayload 0 device.bocContext device.dataContext
  | true =>
    apply (readFirstChunk_inBounds sdk cdata keyBuffer_zero Memory.zero).bind
    rintro ⟨offset, bc, dc⟩ -
    exact hpayload offset bc dc

/-! The last chunk. -/

/-- A root that gets an address in front has room for it in `cell_buffer`. -/
def RootFits (request : SigningRequest) (cells : List RawCell) : Prop :=
  request.family = some .prefixedContract → ∀ root, cells[rootCellIndex]? = some root →
    root.data.length ≤ 94 ∧ (root.bits.length + 267 + 7) / 8 + root.refs.length ≤ 128

/-- A cell in the slot of the public key is no larger than the buffer that is hashed
in its place. -/
def KeyCellFits (bc : BocContext) (cells : List RawCell) : Prop :=
  bc.publicKeyCellIndex ≠ 0 → ∀ c, cells[bc.publicKeyCellIndex]? = some c →
    c.data.length ≤ maxPublicKeyCellDataSize

section

variable {sdk : Sdk} {locals : Locals} {request : SigningRequest} {bc : BocContext}
  {src : ByteStream}

theorem Reception.hashFits (reception : Reception src bc) (hbuffer : KeyBuffer bc)
    (hkey : KeyCellFits bc reception.cells) {i : Nat} {c : RawCell}
    (hc : reception.cells[i]? = some c) (rest : List UInt8) : HashFits reception.parsed i c rest where
  index := Nat.lt_of_lt_of_le (List.getElem?_eq_some_iff.mp hc).1 reception.length_le
  pruned hpruned := by
    have hsize := reception.forward.pruned_size c (List.mem_of_getElem? hc) hpruned
    rw [List.length_append]
    omega
  publicKey := by
    obtain ⟨-, -, hdata, hindex⟩ := reception.parsed_tables
    rintro ⟨hne, rfl⟩
    rw [hindex] at hne hc
    rw [hdata, hbuffer]
    exact hkey hne c hc

theorem preparePayloadHash_inBounds {ctx : SignTransactionContext} {parsed : BocContext}
    (h : ∀ i < parsed.cellsCount, ∃ c rest, Holds (parsed.cells i) c rest ∧ HashFits parsed i c rest) :
    InBounds (fun _ => True) (preparePayloadHash sdk ctx parsed) := by
  unfold preparePayloadHash
  apply (calcCellHashes_inBounds h).bind
  intro hashed _
  exact inBounds_ite (inBounds_ok trivial) (inBounds_ok trivial)

/-- The prefixed root lies in `cell_buffer`, and so does all that hashing reads of it. -/
theorem prependAddressToCell_inBounds {cell : Cell} {root : RawCell} {rest : List UInt8}
    (hroot : Holds cell root rest) (hne : root.data ≠ [])
    (hrefs : root.refs.length ≤ maxReferencesCount)
    (haddress : request.prependAddress.length = addressLength) (hlength : root.data.length ≤ 94)
    (hroom : (root.bits.length + 267 + 7) / 8 + root.refs.length ≤ 128) :
    InBounds (fun prefixed => ∃ c tail, Holds prefixed c tail ∧
        (c.bytes ++ tail).length = cellBufferSize)
      (prependAddressToCell locals.cellBuffer.toList cell request.wc request.prependAddress) := by
  obtain ⟨prefixed, c, tail, hprepend, hholds, hsize, -⟩ := prependAddressToCell_root request.wc hroot
    (Vector.length_toList ..) haddress hne root.bitLen_eq hrefs hlength hroom
  rw [hprepend]
  exact inBounds_ok ⟨c, tail, hholds, hsize⟩

/-- A cell that fills `cell_buffer` is long enough for the stored hash of a pruned one. -/
theorem hashFits_prefixed {c : RawCell} {tail : List UInt8} (parsed : BocContext)
    (hsize : (c.bytes ++ tail).length = cellBufferSize) : HashFits parsed rootCellIndex c tail where
  index := by decide
  pruned _ := by
    simp only [RawCell.bytes, List.length_cons, List.length_append, cellBufferSize,
      prunedBranchDataSize] at hsize ⊢
    omega
  publicKey := fun ⟨hne, heq⟩ => absurd heq.symm hne

/-- A request is prepared inside the buffers when what it shows, what is left from an
earlier address and the prefixed root fit in theirs. -/
theorem SigningRequest.prepare_inBounds (hheader : HeaderFits request.ctx)
    (haddress : request.prependAddress.length = addressLength) (hbuffer : KeyBuffer bc)
    (hroot : ∀ reception : Reception src bc, RootFits request reception.cells)
    (hkey : ∀ reception : Reception src bc, KeyCellFits bc reception.cells) :
    InBounds (fun _ => True) (request.prepare sdk locals bc src) := by
  unfold SigningRequest.prepare prepareToSign
  apply (Confined.self (deserializeCellsTree_inBounds src bc).1).bind
  rintro ⟨next, parsed⟩ hparse
  obtain ⟨reception, rfl⟩ := exists_reception hparse
  have hparsed := reception.parsed_cells
  have hhash : ∀ i < reception.parsed.cellsCount, ∃ c rest,
      Holds (reception.parsed.cells i) c rest ∧ HashFits reception.parsed i c rest := by
    intro i hi
    rw [hparsed.count] at hi
    have hc := List.getElem?_eq_getElem hi
    obtain ⟨rest, hholds⟩ := hparsed.holds i _ hc
    exact ⟨_, rest, hholds, reception.hashFits hbuffer (hkey reception) hc rest⟩
  apply (validate_inBounds _ _).bind
  intro _ hcount
  rw [hparsed.count] at hcount
  have hget := List.getElem?_eq_getElem hcount
  obtain ⟨rest, hholds⟩ := hparsed.holds rootCellIndex _ hget
  apply (Confined.self (fromCell_inBounds ⟨_, rest, hholds⟩).1).bind
  intro rootSlice hslice
  have hsound : Slice.Sound rootSlice := (fromCell_inBounds ⟨_, rest, hholds⟩).2 _ hslice
  have hdecode : ∀ family, InBounds (fun _ => True)
      (decodeFor sdk locals request reception.parsed rootSlice family) :=
    decodeFor_inBounds hparsed hheader hsound ⟨_, rest, hholds⟩
  cases hfamily : request.family with
  | none =>
    unfold SigningRequest.family at hfamily
    rw [hfamily]
    exact inBounds_thrown _
  | some family =>
    have hswitch := hfamily
    unfold SigningRequest.family at hswitch
    rw [hswitch]
    cases family with
    | walletV3 =>
      apply (hdecode .walletV3).bind
      intro decoded _
      apply (preparePayloadHash_inBounds hhash).bind
      intro _ _
      exact inBounds_ok trivial
    | contract =>
      apply (hdecode .contract).bind
      intro decoded _
      apply (preparePayloadHash_inBounds hhash).bind
      intro _ _
      exact inBounds_ok trivial
    | prefixedContract =>
      apply (Confined.self (hdecode .prefixedContract).1).bind
      intro decoded hdecoded
      rw [hholds.fromCell, Except.ok.injEq] at hslice
      subst hslice
      obtain ⟨hlength, hroom⟩ := hroot reception hfamily _ hget
      have hne := decodePrefixedContract_data_ne hdecoded
      have hrefs := reception.forward.refs_le _ (List.getElem_mem hcount)
      apply (prependAddressToCell_inBounds hholds hne hrefs haddress hlength hroom).bind
      rintro prefixed ⟨c, tail, hprefixed, hsize⟩
      apply (preparePayloadHash_inBounds fun i hi => ?_).bind
      · intro _ _
        exact inBounds_ok trivial
      · by_cases hzero : i = rootCellIndex
        · subst hzero
          refine ⟨c, tail, ?_, hashFits_prefixed _ hsize⟩
          change Holds (Function.update reception.parsed.cells rootCellIndex prefixed rootCellIndex) c tail
          rwa [Function.update_self]
        · obtain ⟨other, rest, hother, hfits⟩ := hhash i hi
          refine ⟨other, rest, ?_, hfits.index, hfits.pruned, hfits.publicKey⟩
          change Holds (Function.update reception.parsed.cells rootCellIndex prefixed i) other rest
          rwa [Function.update_of_ne hzero]

end

/-- A message that the device can handle inside its buffers. -/
structure MessageFits (device : Device) : Prop where
  header : HeaderFits (requestOf device.dataContext).ctx
  root : ∀ reception : Reception (received (buffered device.dataContext)) device.bocContext,
    RootFits (requestOf device.dataContext) reception.cells
  keyCell : ∀ reception : Reception (received (buffered device.dataContext)) device.bocContext,
    KeyCellFits device.bocContext reception.cells

theorem finishTransaction_inBounds (sdk : Sdk) (locals : Locals) {device : Device}
    (hbuffer : KeyBuffer device.bocContext) (hoffset : OffsetInBuffer device.dataContext)
    (hfits : MessageFits device) :
    InBounds (fun _ => True) (finishTransaction sdk locals device) := by
  have hprepare : InBounds (fun _ => True) ((requestOf device.dataContext).prepare sdk locals
      device.bocContext (received (buffered device.dataContext))) :=
    SigningRequest.prepare_inBounds hfits.header (Memory.length_read _ _) hbuffer hfits.root
      hfits.keyCell
  have hdata : loadMany (device.dataContext.read DataContext.signTrContext.data)
      (device.dataContext.readUint DataContext.signTrContext.dataOffset) =
        .ok (buffered device.dataContext) := by
    rw [loadMany_eq_ok, Memory.length_read]
    exact ⟨Nat.le_of_lt hoffset, rfl⟩
  have hstream : InBounds (fun src => src = received (buffered device.dataContext))
      (ByteStream.init (buffered device.dataContext)) := by
    apply (validate_inBounds _ _).bind
    intro _ _
    exact inBounds_ok rfl
  have htransaction : InBounds (fun _ => True) (prepareTransaction sdk locals device) := by
    simp only [prepareTransaction]
    rw [hdata, ok_bind]
    apply hstream.bind
    rintro _ rfl
    exact hprepare
  unfold finishTransaction
  apply htransaction.bind
  intro _ _
  exact inBounds_ok trivial

/-! Runs. -/

theorem keyBuffer_of_received {sdk : Sdk} {cdata : List UInt8} {isFirstChunk : Bool}
    {device held : Device} (hbuffer : KeyBuffer device.bocContext)
    (h : receiveChunk sdk cdata isFirstChunk device = .ok held) : KeyBuffer held.bocContext := by
  cases isFirstChunk with
  | true =>
    rw [(open_of_first h).isolated.bocContext]
    exact keyBuffer_zero
  | false =>
    obtain ⟨dc, -, rfl⟩ := receiveChunk_next_ok h
    exact hbuffer

theorem Handled.keyBuffer {sdk : Sdk} {locals : Locals} {device next : Device} {request : Request}
    (h : Handled sdk locals device request next) (hbuffer : KeyBuffer device.bocContext) :
    KeyBuffer next.bocContext := by
  cases h with
  | configurationSent => exact hbuffer
  | refused error => exact hbuffer
  | publicKeyFailed cdata display => exact hbuffer
  | publicKeyShown cdata key derived => exact hbuffer
  | publicKeySent cdata key derived => exact keyBuffer_zero
  | addressShown cdata account typed computed =>
    exact (getAddress_inBounds sdk _ _ hbuffer _).2 _ computed
  | addressSent cdata => exact keyBuffer_zero
  | messageShown cdata accountNumber message bounded sized => exact hbuffer
  | chunkKept cdata isFirstChunk received => exact keyBuffer_of_received hbuffer received
  | transactionShown cdata isFirstChunk received accepted =>
    obtain ⟨next, parsed, family, rootSlice, toHash, hparse, hprepares⟩ :=
      prepare_ok (prepareTransaction_ok accepted)
    obtain ⟨reception, rfl⟩ := exists_reception hparse
    obtain ⟨_, _, -, hsigned⟩ := hprepares.signedRoot
    simp only [hprepares.bc]
    split
    · exact keyBuffer_zero
    · unfold KeyBuffer
      rw [hsigned.tables.same.publicKeyCellData, hsigned.publicKeyCellData]
      exact keyBuffer_of_received hbuffer received

theorem Stepped.keyBuffer {sdk : Sdk} {device next : Device} {event : Event} {effect : Effect}
    (h : Stepped sdk device event next effect) (hbuffer : KeyBuffer device.bocContext) :
    KeyBuffer next.bocContext := by
  cases h with
  | restarted cmd locals effect silent => exact keyBuffer_zero
  | handled hhandled effect silent => exact hhandled.keyBuffer hbuffer
  | rejected shown effect silent => exact hbuffer
  | @approved screen shown =>
    obtain ⟨hreset, -⟩ | ⟨-, hsame | ⟨field, signature, -, hsigned⟩⟩ :=
      approve_device sdk screen.callback device
    · simp only [hreset]
      exact keyBuffer_zero
    · simp only [hsame]
      exact hbuffer
    · simp only [hsigned]
      exact hbuffer

theorem keyBuffer_of_run {sdk : Sdk} {events : List Event} {device : Device}
    (hrun : DeviceRun sdk events device) : KeyBuffer device.bocContext := by
  induction hrun with
  | nil => exact keyBuffer_zero
  | snoc _ last ih => exact (step_ok last).keyBuffer ih

/-- The dispatcher has checked the sizes that two of the handlers rely on. -/
theorem Command.request_length {cmd : Command} {cdata : List UInt8} {display : Bool} :
    (cmd.request = .getPublicKey cdata display → cdata.length = 4) ∧
      (cmd.request = .getAddress cdata display → cdata.length = 5) := by
  simp only [Command.request]
  constructor
  · intro h
    split at h
    · cases h
    · cases hins : Ins.ofByte cmd.ins with
      | none =>
        rw [hins] at h
        cases h
      | some ins =>
        rw [hins] at h
        cases ins <;> simp only at h <;> split_ifs at h
        cases h
        omega
  · intro h
    split at h
    · cases h
    · cases hins : Ins.ofByte cmd.ins with
      | none =>
        rw [hins] at h
        cases h
      | some ins =>
        rw [hins] at h
        cases ins <;> simp only at h <;> split_ifs at h
        cases h
        omega

theorem readU32BE_inBounds {cdata : List UInt8} (h : 4 ≤ cdata.length) :
    InBounds (fun _ => True) (readU32BE cdata 0) := by
  unfold readU32BE
  apply (loadMany_inBounds (by rwa [List.drop_zero])).bind
  intro _ _
  exact inBounds_ok trivial

theorem handleGetPublicKey_inBounds (sdk : Sdk) {cdata : List UInt8} (h : cdata.length = 4)
    (display : Bool) (device : Device) :
    InBounds (fun _ => True) (handleGetPublicKey sdk cdata display device) := by
  unfold handleGetPublicKey
  apply (readU32BE_inBounds (Nat.le_of_eq h.symm)).bind
  intro accountNumber _
  cases getPublicKey sdk accountNumber with
  | none => exact inBounds_ok trivial
  | some publicKey => exact inBounds_ite (inBounds_ok trivial) (inBounds_ok trivial)

theorem handleGetAddress_inBounds (sdk : Sdk) {cdata : List UInt8} (h : cdata.length = 5)
    (display : Bool) {device : Device} (hbuffer : KeyBuffer device.bocContext) :
    InBounds (fun _ => True) (handleGetAddress sdk cdata display device) := by
  unfold handleGetAddress
  apply (readU32BE_inBounds (by omega)).bind
  intro accountNumber _
  apply (load_inBounds (by omega)).bind
  intro walletType _
  apply (getAddress_inBounds sdk accountNumber walletType hbuffer _).bind
  rintro ⟨address, bc, dc⟩ -
  exact inBounds_ite (inBounds_ok trivial) (inBounds_ok trivial)

theorem handleSign_inBounds (sdk : Sdk) (cdata : List UInt8) (device : Device) :
    InBounds (fun _ => True) (handleSign sdk cdata device) := by
  unfold handleSign
  apply (validate_inBounds _ _).bind
  intro _ haccount
  apply (readU32BE_inBounds haccount).bind
  intro accountNumber _
  apply (validate_inBounds _ _).bind
  intro _ hlength
  apply (loadMany_inBounds _).bind
  · intro _ _
    exact inBounds_ok trivial
  · rw [List.length_drop]
    omega

/-- The contexts in which a command comes to `prepare_to_sign`. -/
def ComesToPrepare (sdk : Sdk) (device : Device) (cmd : Command) (held : Device) : Prop :=
  ∃ cdata isFirstChunk, cmd.request = .signTransaction cdata isFirstChunk false ∧
    receiveChunk sdk cdata isFirstChunk device = .ok held

theorem handle_inBounds (sdk : Sdk) (locals : Locals) {device : Device} {cmd : Command}
    (hbuffer : KeyBuffer device.bocContext) (hoffset : OffsetInBuffer device.dataContext)
    (hfits : ∀ held, ComesToPrepare sdk device cmd held →
      KeyBuffer held.bocContext ∧ MessageFits held) :
    InBounds (fun _ => True) (handle sdk locals cmd.request device) := by
  cases hrequest : cmd.request with
  | getAppConfiguration => exact inBounds_ok trivial
  | refused error => exact inBounds_ok trivial
  | getPublicKey cdata display =>
    exact handleGetPublicKey_inBounds sdk (Command.request_length.1 hrequest) display device
  | getAddress cdata display =>
    exact handleGetAddress_inBounds sdk (Command.request_length.2 hrequest) display hbuffer
  | sign cdata => exact handleSign_inBounds sdk cdata device
  | signTransaction cdata isFirstChunk more =>
    apply (Confined.self (receiveChunk_inBounds sdk cdata isFirstChunk device).1).bind
    intro held hreceived
    cases more with
    | true => exact inBounds_ok trivial
    | false =>
      obtain ⟨hheld, hmessage⟩ := hfits held ⟨cdata, isFirstChunk, hrequest, hreceived⟩
      exact finishTransaction_inBounds sdk locals hheld (hoffset.received hreceived) hmessage

/-- A chunk of an open session finds `boc_context` cleared. -/
theorem InSession.bocContext {sdk : Sdk} {events : List Event} {device held : Device} {cmd : Command}
    {locals : Locals} (hrun : DeviceRun sdk events device)
    (h : InSession sdk events device (.command cmd locals))
    (hheld : ComesToPrepare sdk device cmd held) : held.bocContext = BocContext.zero := by
  obtain ⟨cdata, isFirstChunk, hrequest, hreceived⟩ := hheld
  cases isFirstChunk with
  | true => exact (open_of_first hreceived).isolated.bocContext
  | false =>
    obtain ⟨opened, hopened⟩ := Run.withHistory (Session.after sdk) none hrun
    obtain ⟨earlier, rfl⟩ := Option.ne_none_iff_exists'.mp (h cdata false hrequest opened hopened)
    obtain ⟨hopen, -⟩ := @withChunk_open sdk _ _ _ _ _ locals _ _ _ (Run.tracked hopened) hrequest
      hreceived _ rfl
    exact hopen.isolated.bocContext

theorem keyCellFits_cleared {bc : BocContext} (h : bc = BocContext.zero) (cells : List RawCell) :
    KeyCellFits bc cells := fun hne => absurd (congrArg BocContext.publicKeyCellIndex h) hne

end EverscaleLedger.Properties
