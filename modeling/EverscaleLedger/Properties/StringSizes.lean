import EverscaleLedger.Properties.Approval
import EverscaleLedger.Properties.FirstChunk

/-! The strings of the screens stay in their fields, so that `prepare_to_sign` leaves
the rest of the union alone. The offset of the buffered data stays in the buffer. -/
namespace EverscaleLedger.Properties

open Library Source

/-- What was written of the strings fits their fields. -/
structure StringsFit (display : Display) : Prop where
  addressStr : ∀ bytes ∈ display.addressStr,
    bytes.length ≤ DataContext.signTrContext.addressStr.size
  amountStr : ∀ bytes ∈ display.amountStr,
    bytes.length ≤ DataContext.signTrContext.amountStr.size
  transactionIdStr : ∀ bytes ∈ display.transactionIdStr,
    bytes.length ≤ DataContext.signTrContext.transactionIdStr.size

theorem stringsFit_untouched : StringsFit Display.untouched := ⟨nofun, nofun, nofun⟩

/-! The setters. -/

theorem length_workchainText_le (wc : UInt8) : (workchainText wc).length ≤ 5 :=
  @Bits.forall_byte (fun wc => (workchainText wc).length ≤ 5) (by decide +kernel) wc

theorem StringsFit.setDstAddress {display : Display} (h : StringsFit display) (sdk : Sdk)
    (wc : UInt8) {address : List UInt8} (haddress : address.length = addressLength) :
    StringsFit (setDstAddress sdk wc address display) := by
  refine ⟨fun bytes hbytes => ?_, h.amountStr, h.transactionIdStr⟩
  obtain rfl := Option.some.inj hbytes
  have hwc := length_workchainText_le wc
  rw [List.length_append, List.length_append, sdk.formatHex_length, haddress]
  change _ + 2 * 32 + 1 ≤ 70
  omega

theorem storeMany_length {object block field : List UInt8} {start : Nat}
    (h : storeMany object start block = .ok field) : field.length = object.length := by
  obtain ⟨hle, rfl⟩ := storeMany_eq_ok.mp h
  simp
  omega

theorem StringsFit.setAmount {display result : Display} (h : StringsFit display)
    {amount ticker : List UInt8} {amountLength flags decimals : Nat}
    (hresult : setAmount amount amountLength flags decimals ticker display = .ok result) :
    StringsFit result := by
  have hstored : ∀ {text field : List UInt8},
      storeMany (List.replicate amountStrSize 0) 0 text = .ok field →
      StringsFit { display with amountStr := some field } := by
    intro text field hfield
    refine ⟨h.addressStr, fun bytes hbytes => ?_, h.transactionIdStr⟩
    obtain rfl := Option.some.inj hbytes
    rw [storeMany_length hfield, List.length_replicate]
    decide
  unfold Source.setAmount at hresult
  split at hresult
  · simp only [bind_eq_ok, pure_eq_ok] at hresult
    obtain ⟨_, _, _, _, _, _, field, hfield, rfl⟩ := hresult
    exact hstored hfield
  split at hresult
  · simp only [bind_eq_ok, pure_eq_ok] at hresult
    obtain ⟨_, _, field, hfield, rfl⟩ := hresult
    exact hstored hfield
  split at hresult
  · simp only [bind_eq_ok, pure_eq_ok] at hresult
    obtain ⟨_, _, field, hfield, rfl⟩ := hresult
    exact hstored hfield
  · cases hresult

theorem StringsFit.setTransactionId {display result : Display} (h : StringsFit display) {sdk : Sdk}
    {transactionId : List UInt8}
    (hresult : setTransactionId sdk transactionId display = .ok result) : StringsFit result := by
  simp only [Source.setTransactionId, bind_eq_ok, pure_eq_ok] at hresult
  obtain ⟨field, hfield, rfl⟩ := hresult
  refine ⟨h.addressStr, h.amountStr, fun bytes hbytes => ?_⟩
  obtain rfl := Option.some.inj hbytes
  rw [storeMany_length hfield, List.length_replicate]
  decide

/-! The decoders. -/

theorem length_deserializeAddress {slice next : SliceData} {wc wc' : UInt8}
    {address address' : List UInt8} (haddress : address.length = addressLength)
    (h : deserializeAddress slice wc address = .ok (next, wc', address')) :
    address'.length = addressLength := by
  simp only [deserializeAddress, bind_eq_ok] at h
  obtain ⟨⟨kind, s⟩, _, _, _, h⟩ := h
  simp only at h
  split at h
  · simp only [bind_eq_ok, pure_eq_ok, Prod.mk.injEq] at h
    obtain ⟨_, _, _, _, account, haccount, _, _, -, -, rfl⟩ := h
    exact deserializeArray_length haccount
  · rw [pure_eq_ok, Prod.mk.injEq, Prod.mk.injEq] at h
    exact h.2.2 ▸ haddress

section

variable {sdk : Sdk} {locals : Locals} {ctx : SignTransactionContext} {display result : Display}
  (hdisplay : StringsFit display)

include hdisplay

theorem deserializeIntMessageHeader_fits {slice next : SliceData} {flags : Nat}
    (h : deserializeIntMessageHeader sdk locals slice flags ctx display = .ok (next, result)) :
    StringsFit result := by
  simp only [deserializeIntMessageHeader, bind_eq_ok, pure_eq_ok, Prod.mk.injEq] at h
  obtain ⟨_, _, _, _, _, _, _, _, _, _, _, _, ⟨_, wc, address⟩, haddress, _, _, _, _, _, _, shown,
    hamount, _, _, _, _, _, _, _, _, _, _, _, _, _, _, -, rfl⟩ := h
  exact (hdisplay.setDstAddress sdk wc
    (length_deserializeAddress (Vector.length_toList ..) haddress)).setAmount hamount

theorem deserializeTokenAmount_fits {source next : TokenSource}
    (h : deserializeTokenAmount source ctx display = .ok (next, result)) : StringsFit result := by
  simp only [deserializeTokenAmount, bind_eq_ok, pure_eq_ok, Prod.mk.injEq] at h
  obtain ⟨_, _, _, _, shown, hamount, -, rfl⟩ := h
  exact hdisplay.setAmount hamount

theorem deserializeTokenFunction_fits {source next : TokenSource} {functionId : Nat} {flow : Flow}
    (h : deserializeTokenFunction sdk locals source functionId ctx display =
      .ok (flow, next, result)) : StringsFit result := by
  unfold deserializeTokenFunction at h
  split at h
  · simp only [bind_eq_ok, pure_eq_ok, Prod.mk.injEq] at h
    obtain ⟨⟨_, shown⟩, hamount, _, _, ⟨_, wc, address⟩, haddress, -, -, rfl⟩ := h
    exact (deserializeTokenAmount_fits hdisplay hamount).setDstAddress sdk wc
      (length_deserializeAddress (Vector.length_toList ..) haddress)
  · simp only [bind_eq_ok, pure_eq_ok, Prod.mk.injEq] at h
    obtain ⟨⟨_, shown⟩, hamount, -, -, rfl⟩ := h
    exact deserializeTokenAmount_fits hdisplay hamount
  · rw [pure_eq_ok, Prod.mk.injEq, Prod.mk.injEq] at h
    exact h.2.2 ▸ hdisplay

theorem deserializeTokenBody_fits {source next : TokenSource} {flow : Flow}
    (h : deserializeTokenBody sdk locals source ctx display = .ok (flow, next, result)) :
    StringsFit result := by
  unfold deserializeTokenBody at h
  simp only at h
  split_ifs at h
  · rw [pure_eq_ok, Prod.mk.injEq, Prod.mk.injEq] at h
    exact h.2.2 ▸ hdisplay
  · simp only [bind_eq_ok] at h
    obtain ⟨_, _, h⟩ := h
    exact deserializeTokenFunction_fits hdisplay h

theorem deserializeRecipient_fits {slice next : SliceData} {amount : List UInt8}
    (h : deserializeRecipient sdk locals slice display = .ok (next, amount, result)) :
    StringsFit result := by
  simp only [deserializeRecipient, bind_eq_ok, pure_eq_ok, Prod.mk.injEq] at h
  obtain ⟨⟨_, wc, address⟩, haddress, _, _, _, _, -, -, rfl⟩ := h
  exact hdisplay.setDstAddress sdk wc
    (length_deserializeAddress (Vector.length_toList ..) haddress)

theorem deserializeMultisigParams_fits {slice next : SliceData} {functionId : Nat} {wc : UInt8}
    {address : List UInt8} (haddress : address.length = addressLength) {flow : Flow}
    (h : deserializeMultisigParams sdk locals slice functionId wc address ctx display =
      .ok (flow, next, result)) : StringsFit result := by
  unfold deserializeMultisigParams at h
  split at h
  · rw [pure_eq_ok, Prod.mk.injEq, Prod.mk.injEq] at h
    exact h.2.2 ▸ hdisplay.setDstAddress sdk wc haddress
  · simp only [bind_eq_ok, pure_eq_ok, Prod.mk.injEq] at h
    obtain ⟨⟨_, _, shown⟩, hrecipient, _, _, _, hamount, -, -, rfl⟩ := h
    exact (deserializeRecipient_fits hdisplay hrecipient).setAmount hamount
  · simp only [bind_eq_ok, pure_eq_ok, Prod.mk.injEq] at h
    obtain ⟨⟨_, _, shown⟩, hrecipient, _, _, _, hamount, -, -, rfl⟩ := h
    exact (deserializeRecipient_fits hdisplay hrecipient).setAmount hamount
  · simp only [bind_eq_ok, pure_eq_ok, Prod.mk.injEq] at h
    obtain ⟨_, _, _, hid, -, -, rfl⟩ := h
    exact hdisplay.setTransactionId hid
  · cases h

end

theorem decodeGiftBody_fits {sdk : Sdk} {locals : Locals} {bc : BocContext} {giftCell : Cell}
    {ctx : SignTransactionContext} {decoded result : Decoded} (hdecoded : StringsFit decoded.display)
    (h : decodeGiftBody sdk locals bc giftCell ctx decoded = .ok result) :
    StringsFit result.display := by
  simp only [decodeGiftBody, bind_eq_ok] at h
  obtain ⟨_, _, h⟩ := h
  split at h
  · simp only [bind_eq_ok] at h
    obtain ⟨_, _, _, _, h⟩ := h
    split at h
    · rw [pure_eq_ok] at h
      exact h ▸ hdecoded
    · simp only [bind_eq_ok, pure_eq_ok] at h
      obtain ⟨⟨_, _, shown⟩, hbody, rfl⟩ := h
      exact deserializeTokenBody_fits hdecoded hbody
  · rw [pure_eq_ok] at h
    exact h ▸ hdecoded

theorem decodeFor_fits {sdk : Sdk} {locals : Locals} {request : SigningRequest} {parsed : BocContext}
    {rootSlice : SliceData} {family : WalletFamily} {decoded : Decoded}
    (haddress : request.address.length = addressLength)
    (h : decodeFor sdk locals request parsed rootSlice family = .ok decoded) :
    StringsFit decoded.display := by
  cases family with
  | walletV3 =>
    simp only [decodeFor, decodeWalletV3, bind_eq_ok] at h
    obtain ⟨_, _, _, _, _, _, ⟨_, shown⟩, hheader, _, _, _, _, _, _, _, _, h⟩ := h
    have hshown := deserializeIntMessageHeader_fits stringsFit_untouched hheader
    simp only at h
    split at h
    · simp only [bind_eq_ok, pure_eq_ok] at h
      obtain ⟨_, _, _, _, ⟨_, _, last⟩, hbody, rfl⟩ := h
      exact deserializeTokenBody_fits hshown hbody
    · rw [pure_eq_ok] at h
      exact h ▸ hshown
  | contract =>
    simp only [decodeFor, decodeContract, bind_eq_ok] at h
    obtain ⟨_, _, _, _, _, _, ⟨_, _, shown⟩, hparams, h⟩ := h
    exact decodeGiftBody_fits
      (deserializeMultisigParams_fits stringsFit_untouched haddress hparams) h
  | prefixedContract =>
    simp only [decodeFor, decodePrefixedContract, bind_eq_ok] at h
    obtain ⟨_, _, _, _, _, _, ⟨_, _, shown⟩, hparams, h⟩ := h
    exact decodeGiftBody_fits
      (deserializeMultisigParams_fits stringsFit_untouched haddress hparams) h

/-! The union after `prepare_to_sign`. -/

theorem prepareTransaction_fits {sdk : Sdk} {locals : Locals} {device : Device} {prepared : Prepared}
    (h : prepareTransaction sdk locals device = .ok prepared) :
    StringsFit prepared.decoded.display ∧
      prepared.toSign.length ≤ DataContext.signTrContext.toSign.size := by
  obtain ⟨_, _, _, _, _, _, hprepares⟩ := prepare_ok (prepareTransaction_ok h)
  refine ⟨decodeFor_fits (Memory.length_read ..) hprepares.decode, ?_⟩
  rw [prepareTransaction_toSign h, toSignPrefix_ofData, List.length_append, Vector.length_toList]
  cases hid : signedChainId device.dataContext with
  | none => decide
  | some chainId =>
    rw [Option.getD_some, length_signedChainId hid]
    decide

theorem writeIfSome_apart {dc : DataContext} {target field : Field} {bytes : Option (List UInt8)}
    (h : ∀ block ∈ bytes, field.Apart target.offset block.length) :
    (writeIfSome dc target bytes).read field = dc.read field := by
  cases bytes with
  | none => rfl
  | some block => exact Memory.read_write_apart dc (h block rfl)

/-- `prepare_to_sign` writes to the strings and to the bytes to sign only. -/
theorem storePrepared_read {sdk : Sdk} {locals : Locals} {device : Device} {prepared : Prepared}
    (h : prepareTransaction sdk locals device = .ok prepared) (dc : DataContext) {field : Field}
    (hfield : field.offset + field.size ≤ DataContext.signTrContext.toSign.offset ∨
      DataContext.signTrContext.accountNumber.offset ≤ field.offset) :
    (storePrepared dc prepared).read field = dc.read field := by
  obtain ⟨hfit, htoSign⟩ := prepareTransaction_fits h
  have hplaced : ∀ (target : Field) (block : List UInt8), block.length ≤ target.size →
      DataContext.signTrContext.toSign.offset ≤ target.offset →
      target.offset + target.size ≤ DataContext.signTrContext.accountNumber.offset →
      field.Apart target.offset block.length := by
    intro target block hsize hstart hend
    unfold Field.Apart
    omega
  unfold storePrepared
  rw [Memory.read_write_apart _ (hplaced _ _ htoSign (by decide) (by decide)),
    writeIfSome_apart fun block hblock =>
      hplaced _ _ (hfit.transactionIdStr block hblock) (by decide) (by decide),
    writeIfSome_apart fun block hblock =>
      hplaced _ _ (hfit.amountStr block hblock) (by decide) (by decide),
    writeIfSome_apart fun block hblock =>
      hplaced _ _ (hfit.addressStr block hblock) (by decide) (by decide)]

/-! The offset of the buffered data. -/

/-- There is room behind the buffered data. -/
def OffsetInBuffer (dc : DataContext) : Prop :=
  dc.readUint DataContext.signTrContext.dataOffset < maxDataLen

theorem OffsetInBuffer.of_read {dc next : DataContext} (h : OffsetInBuffer dc)
    (hsame : next.read DataContext.signTrContext.dataOffset =
      dc.read DataContext.signTrContext.dataOffset) : OffsetInBuffer next := by
  unfold OffsetInBuffer Memory.readUint
  rw [hsame]
  exact h

theorem offsetInBuffer_zero : OffsetInBuffer Memory.zero := by
  unfold OffsetInBuffer
  decide

theorem OffsetInBuffer.appended {payload : List UInt8} {dc next : DataContext}
    (hdc : OffsetInBuffer dc) (h : appendPayload payload dc = .ok next) : OffsetInBuffer next := by
  unfold appendPayload at h
  split at h
  · simp only [bind_eq_ok, validate_eq_ok, pure_eq_ok] at h
    obtain ⟨_, hroom, rfl⟩ := h
    unfold OffsetInBuffer
    rw [Memory.readUint_writeUint _ (Nat.lt_trans hroom (by decide))]
    exact hroom
  · rw [pure_eq_ok] at h
    exact h ▸ hdc

/-- A chunk that is accepted leaves the offset in the buffer. -/
theorem OffsetInBuffer.received {sdk : Sdk} {cdata : List UInt8} {isFirstChunk : Bool}
    {device next : Device} (hdevice : OffsetInBuffer device.dataContext)
    (h : receiveChunk sdk cdata isFirstChunk device = .ok next) :
    OffsetInBuffer next.dataContext := by
  cases isFirstChunk with
  | false =>
    obtain ⟨dc, hdc, rfl⟩ := receiveChunk_next_ok h
    exact hdevice.appended hdc
  | true =>
    simp only [receiveChunk, if_true, bind_eq_ok, pure_eq_ok] at h
    obtain ⟨⟨_, _, dc⟩, hfirst, dc', hdc', rfl⟩ := h
    obtain ⟨-, -, -, hzero⟩ := readFirstChunk_ok hfirst
    have hstart : OffsetInBuffer dc := by
      unfold OffsetInBuffer
      rw [hzero]
      decide
    exact hstart.appended hdc'

theorem OffsetInBuffer.written {dc : DataContext} (h : OffsetInBuffer dc) {field : Field}
    {bytes : List UInt8} (hend : field.offset + bytes.length ≤
      DataContext.signTrContext.dataOffset.offset) :
    OffsetInBuffer (dc.write field.offset bytes) :=
  h.of_read (Memory.read_write_apart dc (Or.inr hend))

theorem Handled.offsetInBuffer {sdk : Sdk} {locals : Locals} {device next : Device}
    {request : Request} (h : Handled sdk locals device request next)
    (hdevice : OffsetInBuffer device.dataContext) : OffsetInBuffer next.dataContext := by
  have hhash : ∀ hash : Hash, hash.toList.length = 32 := fun _ => Vector.length_toList
  have htext : ∀ bytes, (sdk.formatHex bytes ++ [0]).length = 2 * bytes.length + 1 := by
    intro bytes
    rw [List.length_append, sdk.formatHex_length]
    rfl
  cases h with
  | configurationSent => exact hdevice
  | refused error => exact hdevice
  | publicKeyFailed cdata display => exact hdevice
  | publicKeyShown cdata key derived =>
    exact (hdevice.written (by rw [hhash]; decide)).written (by rw [htext, hhash]; decide)
  | publicKeySent cdata key derived => exact offsetInBuffer_zero
  | addressShown cdata account typed computed =>
    refine (OffsetInBuffer.written ?_ (by rw [hhash]; decide)).written
      (by rw [htext, hhash]; decide)
    obtain rfl | ⟨publicKey, rfl⟩ := (getAddress_dataContext computed).1
    · exact hdevice
    · exact hdevice.written (by rw [hhash]; decide)
  | addressSent cdata => exact offsetInBuffer_zero
  | messageShown cdata accountNumber message bounded sized =>
    have htoSign : (signMagic ++ message).length = 36 := by
      rw [List.length_append, sized]
      decide
    refine ((hdevice.written ?_).written ?_).written ?_
    · rw [Memory.length_littleEndian]
      decide
    · rw [htoSign]
      decide
    · rw [htext, htoSign]
      decide
  | chunkKept cdata isFirstChunk received => exact hdevice.received received
  | transactionShown cdata isFirstChunk received accepted =>
    exact (hdevice.received received).of_read
      (storePrepared_read accepted _ (Or.inr (by decide)))

theorem Stepped.offsetInBuffer {sdk : Sdk} {device next : Device} {event : Event} {effect : Effect}
    (h : Stepped sdk device event next effect) (hdevice : OffsetInBuffer device.dataContext) :
    OffsetInBuffer next.dataContext := by
  cases h with
  | restarted cmd locals effect silent => exact offsetInBuffer_zero
  | handled hhandled effect silent => exact hhandled.offsetInBuffer hdevice
  | rejected shown effect silent => exact hdevice
  | @approved screen shown =>
    obtain ⟨hreset, -⟩ | ⟨-, hsame | ⟨field, signature, hfield, hsigned⟩⟩ :=
      approve_device sdk screen.callback device
    · simp only [hreset]
      exact offsetInBuffer_zero
    · simp only [hsame]
      exact hdevice
    · simp only [hsigned]
      apply hdevice.written
      rw [Vector.length_toList]
      obtain rfl | rfl := hfield <;> decide

theorem offsetInBuffer_of_run {sdk : Sdk} {events : List Event} {device : Device}
    (hrun : DeviceRun sdk events device) : OffsetInBuffer device.dataContext := by
  induction hrun with
  | nil => exact offsetInBuffer_zero
  | snoc _ last ih => exact (step_ok last).offsetInBuffer ih

end EverscaleLedger.Properties
