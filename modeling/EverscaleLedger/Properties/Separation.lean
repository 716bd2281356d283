import EverscaleLedger.Properties.Sessions

/-! Whether a signed message can be taken for a signed transaction. -/
namespace EverscaleLedger.Properties

open Library Source

/-- The chain id that a chunk signs with: its own, or the one in the union. -/
def chunkChainId (device : Device) (cdata : List UInt8) (isFirstChunk : Bool) :
    Option (List UInt8) :=
  if isFirstChunk then FirstChunk.chainId cdata else signedChainId device.dataContext

/-- No final chunk signs with the magic bytes of a message as its chain id. -/
def AvoidsMagic (device : Device) : Event → Prop
  | .command cmd _ => ∀ cdata isFirstChunk,
      cmd.request = .signTransaction cdata isFirstChunk false →
        chunkChainId device cdata isFirstChunk ≠ some signMagic
  | .answer _ => True

theorem signedChainId_of_read {dc next : DataContext}
    (hflag : next.read DataContext.signTrContext.signWithChainId =
      dc.read DataContext.signTrContext.signWithChainId)
    (hchain : next.read DataContext.signTrContext.chainId =
      dc.read DataContext.signTrContext.chainId) : signedChainId next = signedChainId dc := by
  have hbyte : next DataContext.signTrContext.signWithChainId.offset =
      dc DataContext.signTrContext.signWithChainId.offset := (List.cons.inj hflag).1
  unfold signedChainId
  rw [hbyte, hchain]

theorem HeaderHeld.signedChainId_eq {sdk : Sdk} {cdata : List UInt8} {dc : DataContext}
    (h : HeaderHeld sdk cdata dc) : signedChainId dc = FirstChunk.chainId cdata := by
  have hflag : dc DataContext.signTrContext.signWithChainId.offset =
      if FirstChunk.Announces cdata flagWithChainId then 1 else 0 :=
    (List.cons.inj h.signWithChainId).1
  unfold signedChainId
  rw [hflag]
  by_cases hchain : FirstChunk.Announces cdata flagWithChainId
  · have hid : FirstChunk.chainId cdata =
        some (FirstChunk.bytesAt cdata (FirstChunk.chainIdAt cdata) chainIdLength) := if_pos hchain
    rw [if_pos hchain, if_neg (by decide), h.chainId _ hid, hid]
  · rw [if_neg hchain, if_pos rfl]
    exact (if_neg hchain).symm

theorem receiveChunk_chainId {sdk : Sdk} {cdata : List UInt8} {isFirstChunk : Bool}
    {device next : Device} (h : receiveChunk sdk cdata isFirstChunk device = .ok next) :
    signedChainId next.dataContext = chunkChainId device cdata isFirstChunk := by
  cases isFirstChunk with
  | true => exact (open_of_first h).isolated.header.signedChainId_eq
  | false =>
    obtain ⟨dc, hdc, rfl⟩ := receiveChunk_next_ok h
    exact signedChainId_of_read (appendPayload_before hdc (by decide))
      (appendPayload_before hdc (by decide))

/-- The bytes that a message screen has signed. -/
def MessageBytes (bytes : List UInt8) : Prop :=
  ∃ message : List UInt8, message.length = toSignLength ∧ bytes = signMagic ++ message

/-- The bytes that a transaction screen has signed: a hash, alone or behind a chain
id that is not the magic of a message. -/
def TransactionBytes (bytes : List UInt8) : Prop :=
  ∃ hash : List UInt8, hash.length = toSignLength ∧
    (bytes = hash ∨ ∃ chainId : List UInt8, chainId.length = chainIdLength ∧
      chainId ≠ signMagic ∧ bytes = chainId ++ hash)

theorem messageBytes_ne_transactionBytes {first second : List UInt8} (h : MessageBytes first)
    (h' : TransactionBytes second) : first ≠ second := by
  obtain ⟨message, hmessage, rfl⟩ := h
  obtain ⟨hash, hhash, rfl | ⟨chainId, hlength, hne, rfl⟩⟩ := h'
  · intro heq
    have hlength := congrArg List.length heq
    rw [List.length_append, hmessage, hhash] at hlength
    exact absurd hlength (by decide)
  · intro heq
    exact hne (List.append_inj_left heq (by rw [hlength]; rfl)).symm

/-- What a signing screen had computed. -/
def SignsDistinctly (screen : Screen) : Prop :=
  match screen.callback with
  | .validateMessage => ∃ accountNumber bytes,
      screen.computed = .messageSignature accountNumber bytes ∧ MessageBytes bytes
  | .validateTransaction => ∃ accountNumber bytes,
      screen.computed = .transactionSignature accountNumber bytes ∧ TransactionBytes bytes
  | .validatePubkey | .validateAddress => True

theorem prepared_transactionBytes {sdk : Sdk} {locals : Locals} {device : Device}
    {prepared : Prepared} (h : prepareTransaction sdk locals device = .ok prepared)
    (hchain : signedChainId device.dataContext ≠ some signMagic) :
    TransactionBytes prepared.toSign := by
  have hsign := prepareTransaction_toSign h
  rw [toSignPrefix_ofData] at hsign
  refine ⟨(prepared.hashed.hashes rootCellIndex).toList, Vector.length_toList, ?_⟩
  cases hid : signedChainId device.dataContext with
  | none =>
    rw [hid] at hsign
    exact Or.inl hsign
  | some chainId =>
    rw [hid] at hsign hchain
    exact Or.inr ⟨chainId, length_signedChainId hid, fun heq => hchain (congrArg some heq), hsign⟩

def ScreensDistinct (device : Device) : Prop :=
  ∀ screen, device.screen = some screen → SignsDistinctly screen

theorem Handled.screensDistinct {sdk : Sdk} {locals : Locals} {device next : Device}
    {cmd : Command} (h : Handled sdk locals device cmd.request next)
    (hdistinct : ScreensDistinct device) (havoids : AvoidsMagic device (.command cmd locals)) :
    ScreensDistinct next := by
  generalize hrequest : cmd.request = request at h
  have hshown : ∀ {bc dc} {screen : Screen}, SignsDistinctly screen →
      ScreensDistinct ⟨bc, dc, some screen⟩ :=
    fun hsigns _ hscreen => Option.some.inj hscreen ▸ hsigns
  cases h with
  | configurationSent => exact hdistinct
  | refused error => exact hdistinct
  | publicKeyFailed cdata display => exact hdistinct
  | publicKeyShown cdata key derived => exact hshown trivial
  | publicKeySent cdata key derived => exact hdistinct
  | addressShown cdata account typed computed => exact hshown trivial
  | addressSent cdata => exact hdistinct
  | messageShown cdata accountNumber message bounded sized =>
    exact hshown ⟨accountNumber, _, rfl, message, sized, rfl⟩
  | chunkKept cdata isFirstChunk received =>
    intro screen hscreen
    rw [receiveChunk_screen received] at hscreen
    exact hdistinct screen hscreen
  | transactionShown cdata isFirstChunk received accepted =>
    have hchain := havoids cdata isFirstChunk hrequest
    rw [← receiveChunk_chainId received] at hchain
    exact hshown ⟨_, _, rfl, prepared_transactionBytes accepted hchain⟩

theorem Stepped.screensDistinct {sdk : Sdk} {device next : Device} {event : Event}
    {effect : Effect} (h : Stepped sdk device event next effect)
    (hdistinct : ScreensDistinct device) (havoids : AvoidsMagic device event) :
    ScreensDistinct next := by
  refine h.waiting (fun _ => SignsDistinctly) fun cmd locals hevent hhandled => ?_
  subst hevent
  exact hhandled.screensDistinct hdistinct havoids

/-- A step keeps what waits under a screen, and signs with no magic chain id. -/
def KeepsApart (device : Device) (event : Event) : Prop :=
  KeepsPending device event ∧ AvoidsMagic device event

/-- A screen of the given kind waits, and its approval hands these bytes to the signer. -/
def ApprovalSigns (sdk : Sdk) (callback : Callback) (bytes : List UInt8) (device : Device) : Prop :=
  device.screen.map Screen.callback = some callback ∧
    Yields (step sdk device (.answer true)) fun result =>
      result.2.signer.map SignerCall.message = some bytes

instance (sdk : Sdk) (callback : Callback) (bytes : List UInt8) (device : Device) :
    Decidable (ApprovalSigns sdk callback bytes device) :=
  inferInstanceAs (Decidable (_ ∧ Yields _ _))

/-- Some run within the condition ends so. -/
def SignsWithin (sdk : Sdk) (allowed : Device → Event → Prop) (callback : Callback)
    (bytes : List UInt8) : Prop :=
  ∃ events device, DeviceRunWithin sdk allowed events device ∧
    ApprovalSigns sdk callback bytes device

/-- The signer gets what the command behind the screen had computed. -/
theorem SignsWithin.computed {sdk : Sdk} {callback : Callback} {bytes : List UInt8}
    (h : SignsWithin sdk KeepsApart callback bytes) :
    ∃ screen : Screen, screen.callback = callback ∧ SignsDistinctly screen ∧
      (releasedEffect sdk screen.computed).signer.map SignerCall.message = some bytes := by
  obtain ⟨events, device, hrun, hscreen, result, hstep, hsigner⟩ := h
  obtain ⟨screen, hscreen, hcallback⟩ := Option.map_eq_some_iff.mp hscreen
  have hfaithful := faithful_of_run (hrun.weaken fun _ _ h => h.1)
  have hdistinct : ScreensDistinct device :=
    hrun.invariant ScreensDistinct (fun _ h => by cases h)
      fun _ _ _ _ h hkept hlast => (step_ok hlast).screensDistinct h hkept.2
  obtain rfl := Option.some.inj ((hfaithful.approved hscreen).symm.trans hstep)
  exact ⟨screen, hcallback, hdistinct screen hscreen, hsigner⟩

theorem signedEffect_signer {sdk : Sdk} {accountNumber : Nat} {message bytes : List UInt8}
    (h : (signedEffect sdk accountNumber message).signer.map SignerCall.message = some bytes) :
    bytes = message := by
  unfold signedEffect at h
  split at h
  · cases h
  split at h
  · exact (Option.some.inj h).symm
  · exact (Option.some.inj h).symm

/-- The bytes signed on the approval of a message and on that of a transaction
differ, on whatever devices they are signed. -/
theorem signed_bytes_differ (sdk sdk' : Sdk) {message transaction : List UInt8}
    (hmessage : SignsWithin sdk KeepsApart .validateMessage message)
    (htransaction : SignsWithin sdk' KeepsApart .validateTransaction transaction) :
    message ≠ transaction := by
  obtain ⟨screen, hcallback, hsigns, hsigner⟩ := hmessage.computed
  obtain ⟨screen', hcallback', hsigns', hsigner'⟩ := htransaction.computed
  rw [SignsDistinctly, hcallback] at hsigns
  rw [SignsDistinctly, hcallback'] at hsigns'
  obtain ⟨accountNumber, bytes, hcomputed, hbytes⟩ := hsigns
  obtain ⟨accountNumber', bytes', hcomputed', hbytes'⟩ := hsigns'
  rw [hcomputed] at hsigner
  rw [hcomputed'] at hsigner'
  rw [signedEffect_signer hsigner, signedEffect_signer hsigner']
  exact messageBytes_ne_transactionBytes hbytes hbytes'

/-- The root hash of `attachedTransfer`. -/
def transferHash : List UInt8 := [
  0x1D, 0x84, 0x58, 0x38, 0x82, 0x8A, 0x4E, 0xE9, 0xA2, 0x2D, 0x4A, 0x07, 0x21, 0x21, 0x63, 0xC2,
  0x30, 0xD1, 0x22, 0x13, 0xD8, 0xB9, 0x23, 0x57, 0x88, 0x9F, 0x27, 0x45, 0x62, 0xEF, 0x79, 0xE5]

def signCommand (message : List UInt8) (h : message.length < 252) : Command :=
  ⟨0xE0, 3, 1, 0, [0, 0, 0, 0] ++ message, by rw [List.length_append]; exact Nat.add_lt_add_left h 4⟩

/-- A whole transaction in one chunk, with a chain id. -/
def chainedChunk (chainId payload : List UInt8) : List UInt8 :=
  [0, 0, 0, 0, 0, 9, 4] ++ ascii ['E', 'V', 'E', 'R'] ++ [8] ++ chainId ++ payload

theorem signsWithin_of_command {allowed : Device → Event → Prop} {cmd : Command}
    {callback : Callback} {bytes : List UInt8} (hallowed : allowed .initial (.command cmd zeroLocals))
    (h : Yields (step testSdk .initial (.command cmd zeroLocals)) fun result =>
      ApprovalSigns testSdk callback bytes result.1) :
    SignsWithin testSdk allowed callback bytes := by
  obtain ⟨⟨device, effect⟩, hstep, hsigns⟩ := h
  exact ⟨_, device, RunWithin.nil.snoc hallowed hstep, hsigns⟩

theorem messageScreen_signs :
    Yields (step testSdk .initial (.command (signCommand transferHash (by decide)) zeroLocals))
      fun result => ApprovalSigns testSdk .validateMessage (signMagic ++ transferHash) result.1 := by
  decide +kernel

theorem chainedTransfer_signs :
    Yields (step testSdk .initial (.command (transactionCommand 0
        (chainedChunk [0, 0, 0, 1] transferBoc) (by decide)) zeroLocals))
      fun result => ApprovalSigns testSdk .validateTransaction ([0, 0, 0, 1] ++ transferHash)
        result.1 := by
  decide +kernel

theorem magicTransfer_signs :
    Yields (step testSdk .initial (.command (transactionCommand 0
        (chainedChunk signMagic transferBoc) (by decide)) zeroLocals))
      fun result => ApprovalSigns testSdk .validateTransaction (signMagic ++ transferHash)
        result.1 := by
  decide +kernel

/-- The hash of a transfer signed as a message, and the transfer with a chain id. -/
theorem transfer_and_its_hash :
    SignsWithin testSdk KeepsApart .validateMessage (signMagic ++ transferHash) ∧
    SignsWithin testSdk KeepsApart .validateTransaction ([0, 0, 0, 1] ++ transferHash) ∧
    signMagic ++ transferHash ≠ [0, 0, 0, 1] ++ transferHash := by
  have hmessage : SignsWithin testSdk KeepsApart .validateMessage (signMagic ++ transferHash) := by
    refine signsWithin_of_command ⟨fun hwaiting => absurd rfl hwaiting, ?_⟩ messageScreen_signs
    intro _ _ hrequest
    cases hrequest
  have htransaction :
      SignsWithin testSdk KeepsApart .validateTransaction ([0, 0, 0, 1] ++ transferHash) := by
    refine signsWithin_of_command ⟨fun hwaiting => absurd rfl hwaiting, ?_⟩ chainedTransfer_signs
    intro cdata isFirstChunk hrequest
    have hcomputed : (transactionCommand 0 (chainedChunk [0, 0, 0, 1] transferBoc)
        (by decide)).request =
          .signTransaction (chainedChunk [0, 0, 0, 1] transferBoc) true false := by decide
    obtain ⟨rfl, rfl, -⟩ := Request.signTransaction.inj (hcomputed.symm.trans hrequest)
    decide
  exact ⟨hmessage, htransaction, signed_bytes_differ testSdk testSdk hmessage htransaction⟩

/-- A transfer on the chain whose id is the magic of messages, and the signature of
its hash as a message. -/
theorem transfer_signed_as_message :
    ¬ ∀ (sdk sdk' : Sdk) (message transaction : List UInt8),
      SignsWithin sdk (fun _ _ => True) .validateMessage message →
      SignsWithin sdk' (fun _ _ => True) .validateTransaction transaction →
        message ≠ transaction := by
  intro hall
  exact hall testSdk testSdk _ _ (signsWithin_of_command trivial messageScreen_signs)
    (signsWithin_of_command trivial magicTransfer_signs) rfl

end EverscaleLedger.Properties
