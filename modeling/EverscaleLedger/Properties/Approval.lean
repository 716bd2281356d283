import EverscaleLedger.Properties.Preparation
import EverscaleLedger.Properties.Steps
import EverscaleLedger.Properties.Transmission

/-! What an approval gives out against what the command had computed when it put
the screen up. The callbacks read the union, which other commands share. -/
namespace EverscaleLedger.Properties

open Library Source

/-- The reply and the signer call that hand out a signature. -/
def signedEffect (sdk : Sdk) (accountNumber : Nat) (message : List UInt8) : Effect :=
  match getPrivateKey sdk accountNumber with
  | none => ⟨some (ioSendSw Err.signingFailed.statusWord), none⟩
  | some key =>
      match sdk.eddsaSign key message with
      | none => ⟨some (ioSendSw Err.signingFailed.statusWord), some ⟨key, message⟩⟩
      | some signature =>
          ⟨some ⟨UInt8.ofNat signatureLength :: signature.toList, success⟩, some ⟨key, message⟩⟩

/-- The reply and the signer call that give out a value. -/
def releasedEffect (sdk : Sdk) : Released → Effect
  | .publicKey key => ⟨some ⟨UInt8.ofNat publicKeyLength :: key, success⟩, none⟩
  | .address address => ⟨some ⟨UInt8.ofNat addressLength :: address, success⟩, none⟩
  | .messageSignature accountNumber message => signedEffect sdk accountNumber message
  | .transactionSignature accountNumber message => signedEffect sdk accountNumber message

/-- What a callback would give out now. -/
def pending (callback : Callback) (dc : DataContext) : Released :=
  match callback with
  | .validatePubkey => .publicKey (dc.read DataContext.pkContext.publicKey)
  | .validateAddress => .address (dc.read DataContext.addrContext.address)
  | .validateMessage =>
      .messageSignature (dc.readUint DataContext.signContext.accountNumber)
        (dc.read DataContext.signContext.toSign)
  | .validateTransaction =>
      .transactionSignature (dc.readUint DataContext.signTrContext.accountNumber)
        (transactionMessage dc)

theorem cryptoSign_effect {sdk : Sdk} {accountNumber : Nat} {message : List UInt8}
    {field : Field} {device : Device} {respond : Device → Device × Reply}
    (hsize : field.size = 64)
    (hrespond : ∀ d, (respond d).2 =
      ⟨UInt8.ofNat signatureLength :: d.dataContext.read field, success⟩) :
    (cryptoSign sdk accountNumber message field device respond).2 =
      signedEffect sdk accountNumber message := by
  unfold cryptoSign signedEffect
  cases getPrivateKey sdk accountNumber with
  | none => simp only
  | some key =>
    simp only
    cases sdk.eddsaSign key message with
    | none => simp only
    | some signature =>
      simp only [hrespond]
      rw [Memory.read_write_self _ (by rw [hsize]; exact Vector.length_toList)]

/-- An approval gives out what is pending. -/
theorem approve_effect (sdk : Sdk) (callback : Callback) (device : Device) :
    (approve sdk callback device).2 =
      releasedEffect sdk (pending callback device.dataContext) := by
  cases callback with
  | validatePubkey => rfl
  | validateAddress => rfl
  | validateMessage =>
    have hsize : DataContext.signContext.signature.size = 64 := rfl
    exact cryptoSign_effect hsize fun _ => rfl
  | validateTransaction =>
    have hsize : DataContext.signTrContext.signature.size = 64 := rfl
    exact cryptoSign_effect hsize fun _ => rfl

/-- The callback of the waiting screen would give out what its command computed. -/
def Faithful (device : Device) : Prop :=
  ∀ screen, device.screen = some screen →
    pending screen.callback device.dataContext = screen.computed

/-- Neither a public key or an address without confirmation, nor the first of
several transaction chunks: these write over the union and put up no screen. -/
def LeavesPending : Request → Prop
  | .getPublicKey _ display => display = true
  | .getAddress _ display => display = true
  | .signTransaction _ isFirstChunk more => ¬ (isFirstChunk = true ∧ more = true)
  | .getAppConfiguration | .sign _ | .refused _ => True

/-- No step writes over the union under a waiting screen. -/
def KeepsPending (device : Device) : Event → Prop
  | .answer _ => True
  | .command cmd _ => device.screen ≠ none → LeavesPending cmd.request

/-- The callbacks read fields that end before the buffered payload. -/
theorem pending_of_read {callback : Callback} {dc next : DataContext}
    (h : ∀ field : Field, field.offset + field.size ≤ DataContext.signTrContext.data.offset →
      next.read field = dc.read field) : pending callback next = pending callback dc := by
  have hflag : next DataContext.signTrContext.signWithChainId.offset =
      dc DataContext.signTrContext.signWithChainId.offset :=
    (List.cons.inj (h DataContext.signTrContext.signWithChainId (by decide))).1
  cases callback with
  | validatePubkey =>
    simp only [pending]
    rw [h _ (by decide)]
  | validateAddress =>
    simp only [pending]
    rw [h _ (by decide)]
  | validateMessage =>
    simp only [pending, Memory.readUint]
    rw [h _ (by decide), h _ (by decide)]
  | validateTransaction =>
    simp only [pending, transactionMessage, Memory.readUint, hflag]
    rw [h _ (by decide), h _ (by decide)]

theorem appendPayload_before {payload : List UInt8} {dc next : DataContext} {field : Field}
    (h : appendPayload payload dc = .ok next)
    (hfield : field.offset + field.size ≤ DataContext.signTrContext.data.offset) :
    next.read field = dc.read field := by
  unfold appendPayload at h
  split at h
  · simp only [bind_eq_ok, pure_eq_ok] at h
    obtain ⟨_, _, rfl⟩ := h
    unfold Memory.writeUint
    rw [Memory.read_write_apart _ (Or.inl (Nat.le_trans hfield (by decide))),
      Memory.read_write_apart _ (Or.inl (Nat.le_trans hfield (Nat.le_add_right _ _)))]
  · rw [pure_eq_ok] at h
    rw [h]

theorem receiveChunk_next_ok {sdk : Sdk} {cdata : List UInt8} {device next : Device}
    (h : receiveChunk sdk cdata false device = .ok next) :
    ∃ dc, appendPayload cdata device.dataContext = .ok dc ∧
      next = { device with dataContext := dc } := by
  simp only [receiveChunk, Bool.false_eq_true, if_false, bind_eq_ok, pure_eq_ok,
    exists_eq_left', List.drop_zero] at h
  obtain ⟨dc, hdc, rfl⟩ := h
  exact ⟨dc, hdc, rfl⟩

theorem receiveChunk_screen {sdk : Sdk} {cdata : List UInt8} {isFirstChunk : Bool}
    {device next : Device} (h : receiveChunk sdk cdata isFirstChunk device = .ok next) :
    next.screen = device.screen := by
  simp only [receiveChunk, bind_eq_ok, pure_eq_ok] at h
  obtain ⟨_, _, _, _, rfl⟩ := h
  cases isFirstChunk <;> rfl

theorem pending_publicKey (sdk : Sdk) (dc : DataContext) (key : Hash) :
    pending .validatePubkey (writeShown dc DataContext.pkContext.publicKey key.toList
      DataContext.pkContext.publicKeyStr (sdk.formatHex key.toList)) = .publicKey key.toList := by
  simp only [pending, writeShown]
  rw [Memory.read_write_apart _ (Or.inl (by decide)),
    Memory.read_write_self _ (by rw [Vector.length_toList]; decide)]

theorem pending_address (sdk : Sdk) (dc : DataContext) (address : Hash) :
    pending .validateAddress (writeShown dc DataContext.addrContext.address address.toList
      DataContext.addrContext.addressStr (sdk.formatHex address.toList)) =
        .address address.toList := by
  simp only [pending, writeShown]
  rw [Memory.read_write_apart _ (Or.inl (by decide)),
    Memory.read_write_self _ (by rw [Vector.length_toList]; decide)]

theorem pending_message (sdk : Sdk) (dc : DataContext) {accountNumber : Nat}
    {message : List UInt8} (haccount : accountNumber < 256 ^ 4)
    (hlength : message.length = toSignLength) :
    pending .validateMessage (messageWritten sdk dc accountNumber (signMagic ++ message)) =
      .messageSignature accountNumber (signMagic ++ message) := by
  have htoSign : (signMagic ++ message).length = DataContext.signContext.toSign.size := by
    rw [List.length_append, hlength]
    decide
  simp only [pending, messageWritten, writeShown]
  rw [Memory.read_write_apart _ (Or.inl (by decide)), Memory.read_write_self _ htoSign,
    Memory.readUint_write_apart _ (Or.inl (by decide)),
    Memory.readUint_write_apart _ (Or.inr (by rw [htoSign]; decide)),
    Memory.readUint_writeUint _ haccount]

theorem writeIfSome_before {dc : DataContext} {field : Field} {bytes : Option (List UInt8)}
    {address : Nat} (h : address < field.offset) :
    writeIfSome dc field bytes address = dc address := by
  cases bytes with
  | none => rfl
  | some bytes => exact Memory.write_before dc bytes h

/-- The chain id that goes in front of the hash of a transaction. -/
def signedChainId (dc : DataContext) : Option (List UInt8) :=
  if dc DataContext.signTrContext.signWithChainId.offset = 0 then none
  else some (dc.read DataContext.signTrContext.chainId)

theorem length_signedChainId {dc : DataContext} {chainId : List UInt8}
    (h : signedChainId dc = some chainId) : chainId.length = chainIdLength := by
  unfold signedChainId at h
  split at h
  · cases h
  · obtain rfl := Option.some.inj h
    exact Memory.length_read ..

theorem toSignPrefix_ofData (dc : DataContext) :
    toSignPrefix (SignTransactionContext.ofData dc) = (signedChainId dc).getD [] := by
  unfold toSignPrefix SignTransactionContext.ofData signedChainId
  by_cases hflag : dc DataContext.signTrContext.signWithChainId.offset = 0
  · simp [hflag]
  · simp [hflag]

/-- The bytes that a transaction screen has its callback sign. -/
theorem transactionMessage_storePrepared {dc : DataContext} {prepared : Prepared} {hash : Hash}
    (h : prepared.toSign = toSignPrefix (SignTransactionContext.ofData dc) ++ hash.toList) :
    transactionMessage (storePrepared dc prepared) = prepared.toSign := by
  have hhash : hash.toList.length = 32 := Vector.length_toList
  have hflag : storePrepared dc prepared DataContext.signTrContext.signWithChainId.offset =
      dc DataContext.signTrContext.signWithChainId.offset := by
    unfold storePrepared
    rw [Memory.write_before _ _ (by decide), writeIfSome_before (by decide),
      writeIfSome_before (by decide), writeIfSome_before (by decide)]
  rw [toSignPrefix_ofData] at h
  unfold transactionMessage
  rw [hflag]
  cases hid : signedChainId dc with
  | none =>
    have hzero : dc DataContext.signTrContext.signWithChainId.offset = 0 := by
      by_contra hne
      rw [signedChainId, if_neg hne] at hid
      cases hid
    have hlength : prepared.toSign.length = toSignLength := by
      rw [h, hid]
      exact hhash
    rw [if_pos hzero, ← hlength]
    exact Memory.take_read_write _ (by rw [hlength]; decide)
  | some chainId =>
    have hne : dc DataContext.signTrContext.signWithChainId.offset ≠ 0 := by
      intro hzero
      rw [signedChainId, if_pos hzero] at hid
      cases hid
    rw [if_neg hne]
    apply Memory.read_write_self
    rw [h, hid, Option.getD_some, List.length_append, length_signedChainId hid, hhash]
    decide

/-- The request that `prepare_to_sign` finds in the union. -/
def requestOf (dc : DataContext) : SigningRequest where
  ctx := SignTransactionContext.ofData dc
  wc := dc DataContext.signTrContext.wc.offset
  address := dc.read DataContext.signTrContext.address
  prependAddress := dc.read DataContext.signTrContext.prependAddress

/-- The bytes that were buffered so far. -/
def buffered (dc : DataContext) : List UInt8 :=
  (dc.read DataContext.signTrContext.data).take
    (dc.readUint DataContext.signTrContext.dataOffset)

theorem prepareTransaction_ok {sdk : Sdk} {locals : Locals} {device : Device}
    {prepared : Prepared} (h : prepareTransaction sdk locals device = .ok prepared) :
    (requestOf device.dataContext).prepare sdk locals device.bocContext
      (received (buffered device.dataContext)) = .ok prepared := by
  simp only [prepareTransaction, bind_eq_ok, loadMany_eq_ok, ByteStream.init, pure_eq_ok] at h
  obtain ⟨_, ⟨_, rfl⟩, _, ⟨_, _, rfl⟩, h⟩ := h
  exact h

theorem prepareTransaction_toSign {sdk : Sdk} {locals : Locals} {device : Device}
    {prepared : Prepared} (h : prepareTransaction sdk locals device = .ok prepared) :
    prepared.toSign = toSignPrefix (SignTransactionContext.ofData device.dataContext) ++
      (prepared.hashed.hashes rootCellIndex).toList := by
  obtain ⟨_, _, _, _, _, _, hprepares⟩ := prepare_ok (prepareTransaction_ok h)
  exact hprepares.toSign

theorem waiting_of_screen {device : Device} {screen : Screen}
    (h : device.screen = some screen) : device.screen ≠ none := by
  rw [h]
  exact Option.some_ne_none screen

theorem Handled.faithful {sdk : Sdk} {locals : Locals} {device next : Device} {request : Request}
    (h : Handled sdk locals device request next) (hfaithful : Faithful device)
    (hkept : device.screen ≠ none → LeavesPending request) : Faithful next := by
  cases h with
  | configurationSent => exact hfaithful
  | refused error => exact hfaithful
  | publicKeyFailed cdata display => exact hfaithful
  | publicKeyShown cdata key derived =>
    intro screen hscreen
    obtain rfl := Option.some.inj hscreen
    exact pending_publicKey sdk device.dataContext key
  | publicKeySent cdata key derived =>
    intro screen hscreen
    cases hkept (waiting_of_screen hscreen)
  | addressShown cdata account typed computed =>
    intro screen hscreen
    obtain rfl := Option.some.inj hscreen
    exact pending_address sdk _ _
  | addressSent cdata =>
    intro screen hscreen
    cases hkept (waiting_of_screen hscreen)
  | messageShown cdata accountNumber message bounded sized =>
    intro screen hscreen
    obtain rfl := Option.some.inj hscreen
    exact pending_message sdk device.dataContext bounded sized
  | chunkKept cdata isFirstChunk received =>
    intro screen hscreen
    rw [receiveChunk_screen received] at hscreen
    cases isFirstChunk with
    | false =>
      obtain ⟨dc, hdc, rfl⟩ := receiveChunk_next_ok received
      rw [pending_of_read fun field hfield => appendPayload_before hdc hfield]
      exact hfaithful screen hscreen
    | true => exact absurd ⟨rfl, rfl⟩ (hkept (waiting_of_screen hscreen))
  | transactionShown cdata isFirstChunk received accepted =>
    intro screen hscreen
    obtain rfl := Option.some.inj hscreen
    simp only [transactionScreen, pending,
      transactionMessage_storePrepared (prepareTransaction_toSign accepted)]

theorem Stepped.faithful {sdk : Sdk} {device next : Device} {event : Event} {effect : Effect}
    (h : Stepped sdk device event next effect) (hfaithful : Faithful device)
    (hkept : KeepsPending device event) : Faithful next := by
  refine h.waiting (fun device screen => pending screen.callback device.dataContext =
    screen.computed) fun cmd locals hevent hhandled => ?_
  subst hevent
  exact hhandled.faithful hfaithful hkept

theorem faithful_of_run {sdk : Sdk} {events : List Event} {device : Device}
    (hrun : DeviceRunWithin sdk KeepsPending events device) : Faithful device :=
  hrun.invariant Faithful (fun _ h => by cases h)
    fun _ _ _ _ h hkept hstep => (step_ok hstep).faithful h hkept

/-- What a screen shows of what its approval gives out: the digits of a key, of an address
or of a message, and the strings that `prepare_to_sign` stored with the bytes to sign. -/
def Rendered (sdk : Sdk) (screen : Screen) : Prop :=
  match screen.computed with
  | .publicKey key => screen.text = [sdk.formatHex key]
  | .address address => screen.text = [sdk.formatHex address]
  | .messageSignature _ message => screen.text = [sdk.formatHex message]
  | .transactionSignature _ message =>
      ∃ (locals : Locals) (device : Device) (prepared : Prepared),
        prepareTransaction sdk locals device = .ok prepared ∧ message = prepared.toSign ∧
          screen.text = transactionText prepared.decoded.flow
            (storePrepared device.dataContext prepared)

/-- A request leaves the screen as it was, or puts up one that shows what it computed. -/
theorem Handled.rendered {sdk : Sdk} {locals : Locals} {device next : Device} {request : Request}
    (h : Handled sdk locals device request next)
    (hrendered : ∀ screen, device.screen = some screen → Rendered sdk screen) :
    ∀ screen, next.screen = some screen → Rendered sdk screen := by
  have hshown : ∀ {bc dc} {screen : Screen}, Rendered sdk screen →
      ∀ other, (Device.mk bc dc (some screen)).screen = some other → Rendered sdk other :=
    fun hscreen _ hsome => Option.some.inj hsome ▸ hscreen
  cases h with
  | configurationSent => exact hrendered
  | refused error => exact hrendered
  | publicKeyFailed cdata display => exact hrendered
  | publicKeyShown cdata key derived => exact hshown rfl
  | publicKeySent cdata key derived => exact hrendered
  | addressShown cdata account typed computed => exact hshown rfl
  | addressSent cdata => exact hrendered
  | messageShown cdata accountNumber message bounded sized => exact hshown rfl
  | chunkKept cdata isFirstChunk received =>
    rw [receiveChunk_screen received]
    exact hrendered
  | transactionShown cdata isFirstChunk received accepted =>
    exact hshown ⟨locals, _, _, accepted, rfl, rfl⟩

/-- Whatever the device did before, a waiting screen shows what its command computed. -/
theorem rendered_of_run {sdk : Sdk} {events : List Event} {device : Device}
    (hrun : DeviceRun sdk events device) :
    ∀ screen, device.screen = some screen → Rendered sdk screen := by
  induction hrun with
  | nil =>
    intro screen hscreen
    cases hscreen
  | snoc _ hlast ih =>
    exact (step_ok hlast).waiting (fun _ => Rendered sdk) fun _ _ _ hhandled => hhandled.rendered ih

theorem Faithful.approved {sdk : Sdk} {device : Device} {screen : Screen}
    (h : Faithful device) (hscreen : device.screen = some screen) :
    step sdk device (.answer true) =
      some ({ (approve sdk screen.callback device).1 with screen := none },
        releasedEffect sdk screen.computed) := by
  simp only [step, hscreen, if_true]
  rw [approve_effect, h screen hscreen]

/-- As long as nothing writes over the union under a waiting screen, an approval
gives out what the command behind that screen had computed. -/
theorem approval_releases_computed (sdk : Sdk) {events : List Event} {device : Device}
    (hrun : DeviceRunWithin sdk KeepsPending events device) {screen : Screen}
    (hscreen : device.screen = some screen) :
    ∃ next, step sdk device (.answer true) = some (next, releasedEffect sdk screen.computed) :=
  ⟨_, (faithful_of_run hrun).approved hscreen⟩

/-- GET_PUBLIC_KEY of the first account, with confirmation if `p1` is one. -/
def publicKeyCommand (p1 : UInt8) : Command := ⟨0xE0, 2, p1, 0, [0, 0, 0, 0], by decide⟩

def configurationCommand : Command := ⟨0xE0, 1, 0, 0, [], by decide⟩

/-- A command under a waiting public key changes nothing about it. -/
theorem approval_releases_publicKey :
    ∃ device screen next,
      DeviceRun testSdk [.command (publicKeyCommand 1) zeroLocals,
        .command configurationCommand zeroLocals] device ∧
      device.screen = some screen ∧
      step testSdk device (.answer true) = some (next, releasedEffect testSdk screen.computed) := by
  have hfirst : Yields (step testSdk .initial (.command (publicKeyCommand 1) zeroLocals))
      fun result => Yields (step testSdk result.1 (.command configurationCommand zeroLocals))
        fun result => Yields result.1.screen fun _ => True := by
    decide +kernel
  obtain ⟨⟨shown, first⟩, hfirst, hsecond⟩ := hfirst
  obtain ⟨⟨device, second⟩, hsecond, hscreen⟩ := hsecond
  obtain ⟨screen, hscreen, -⟩ := hscreen
  have hrun : DeviceRunWithin testSdk KeepsPending [.command (publicKeyCommand 1) zeroLocals,
      .command configurationCommand zeroLocals] device :=
    (RunWithin.nil.snoc (fun hwaiting => absurd rfl hwaiting) hfirst).snoc (fun _ => trivial) hsecond
  obtain ⟨next, hnext⟩ := approval_releases_computed testSdk hrun hscreen
  exact ⟨device, screen, next, hrun.run, hscreen, hnext⟩

/-- A second GET_PUBLIC_KEY, without confirmation, clears the union under the
screen of the first. The approval then sends zeros. -/
theorem approval_of_cleared_key :
    ¬ ∀ (sdk : Sdk) (events : List Event) (device : Device) (screen : Screen),
      DeviceRun sdk events device → device.screen = some screen →
        ∃ next, step sdk device (.answer true) =
          some (next, releasedEffect sdk screen.computed) := by
  intro hall
  have hsteps : Yields (steps (step testSdk) .initial [.command (publicKeyCommand 1) zeroLocals,
      .command (publicKeyCommand 0) zeroLocals]) fun device =>
        Yields device.screen fun screen => Yields (step testSdk device (.answer true))
          fun result => result.2.reply ≠ (releasedEffect testSdk screen.computed).reply := by
    decide +kernel
  obtain ⟨device, hrun, hscreen⟩ := exists_run hsteps
  obtain ⟨screen, hscreen, hreply⟩ := hscreen
  obtain ⟨result, hstep, hreply⟩ := hreply
  obtain ⟨next, hnext⟩ := hall testSdk _ device screen hrun hscreen
  obtain rfl := Option.some.inj (hstep.symm.trans hnext)
  exact hreply rfl

end EverscaleLedger.Properties
