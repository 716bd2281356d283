import EverscaleLedger.Properties.Decoding
import EverscaleLedger.Source.Dispatcher

/-! What one step of the device can do. Invariants are proved from these two
relations, without a look into the handlers. -/
namespace EverscaleLedger.Properties

open Library Source

def publicKeyScreen (sdk : Sdk) (key : Hash) : Screen :=
  ⟨.validatePubkey, [sdk.formatHex key.toList], .publicKey key.toList⟩

def addressScreen (sdk : Sdk) (address : Hash) : Screen :=
  ⟨.validateAddress, [sdk.formatHex address.toList], .address address.toList⟩

def messageScreen (sdk : Sdk) (accountNumber : Nat) (toSign : List UInt8) : Screen :=
  ⟨.validateMessage, [sdk.formatHex toSign], .messageSignature accountNumber toSign⟩

def transactionScreen (dc : DataContext) (prepared : Prepared) : Screen :=
  ⟨.validateTransaction, transactionText prepared.decoded.flow dc,
    .transactionSignature (dc.readUint DataContext.signTrContext.accountNumber) prepared.toSign⟩

/-- A field and the string of a field behind it, as a command with a screen writes them. -/
def writeShown (dc : DataContext) (field : Field) (bytes : List UInt8) (text : Field)
    (string : List UInt8) : DataContext :=
  (dc.write field.offset bytes).write text.offset (string ++ [0])

def messageWritten (sdk : Sdk) (dc : DataContext) (accountNumber : Nat) (toSign : List UInt8) :
    DataContext :=
  writeShown (dc.writeUint DataContext.signContext.accountNumber accountNumber)
    DataContext.signContext.toSign toSign DataContext.signContext.toSignStr (sdk.formatHex toSign)

/-- The key that GET_PUBLIC_KEY is asked for, if it can be derived. -/
def derivedKey (sdk : Sdk) (cdata : List UInt8) : Option Hash :=
  match readU32BE cdata 0 with
  | .ok accountNumber => getPublicKey sdk accountNumber
  | .error _ => none

/-- The device after a request that ends without an exception. -/
inductive Handled (sdk : Sdk) (locals : Locals) (device : Device) : Request → Device → Prop where
  | configurationSent : Handled sdk locals device .getAppConfiguration device
  | refused (error : Err) : Handled sdk locals device (.refused error) device
  | publicKeyFailed (cdata : List UInt8) (display : Bool) :
      Handled sdk locals device (.getPublicKey cdata display) device
  | publicKeyShown (cdata : List UInt8) (key : Hash) (derived : derivedKey sdk cdata = some key) :
      Handled sdk locals device (.getPublicKey cdata true)
        ⟨device.bocContext,
          writeShown device.dataContext DataContext.pkContext.publicKey key.toList
            DataContext.pkContext.publicKeyStr (sdk.formatHex key.toList),
          some (publicKeyScreen sdk key)⟩
  | publicKeySent (cdata : List UInt8) (key : Hash) (derived : derivedKey sdk cdata = some key) :
      Handled sdk locals device (.getPublicKey cdata false) device.resetAppContext
  | addressShown (cdata : List UInt8) {accountNumber : Nat} {walletType : UInt8} {address : Hash}
      {bc : BocContext} {dc : DataContext} (account : readU32BE cdata 0 = .ok accountNumber)
      (typed : cdata[4]? = some walletType)
      (computed : getAddress sdk accountNumber walletType device.bocContext device.dataContext =
        .ok (address, bc, dc)) :
      Handled sdk locals device (.getAddress cdata true)
        ⟨bc, writeShown dc DataContext.addrContext.address address.toList
          DataContext.addrContext.addressStr (sdk.formatHex address.toList),
          some (addressScreen sdk address)⟩
  | addressSent (cdata : List UInt8) :
      Handled sdk locals device (.getAddress cdata false) device.resetAppContext
  | messageShown (cdata : List UInt8) (accountNumber : Nat) (message : List UInt8)
      (bounded : accountNumber < 256 ^ 4) (sized : message.length = toSignLength) :
      Handled sdk locals device (.sign cdata)
        ⟨device.bocContext,
          messageWritten sdk device.dataContext accountNumber (signMagic ++ message),
          some (messageScreen sdk accountNumber (signMagic ++ message))⟩
  | chunkKept (cdata : List UInt8) (isFirstChunk : Bool) {next : Device}
      (received : receiveChunk sdk cdata isFirstChunk device = .ok next) :
      Handled sdk locals device (.signTransaction cdata isFirstChunk true) next
  | transactionShown (cdata : List UInt8) (isFirstChunk : Bool) {next : Device}
      {prepared : Prepared} (received : receiveChunk sdk cdata isFirstChunk device = .ok next)
      (accepted : prepareTransaction sdk locals next = .ok prepared) :
      Handled sdk locals device (.signTransaction cdata isFirstChunk false)
        ⟨prepared.bc, storePrepared next.dataContext prepared,
          some (transactionScreen (storePrepared next.dataContext prepared) prepared)⟩

theorem handleGetPublicKey_ok {sdk : Sdk} {locals : Locals} {cdata : List UInt8} {display : Bool}
    {device next : Device} {reply : Option Reply}
    (h : handleGetPublicKey sdk cdata display device = .ok (next, reply)) :
    Handled sdk locals device (.getPublicKey cdata display) next := by
  simp only [handleGetPublicKey, bind_eq_ok] at h
  obtain ⟨accountNumber, hread, h⟩ := h
  split at h
  next =>
    rw [pure_eq_ok, Prod.mk.injEq] at h
    exact h.1 ▸ .publicKeyFailed cdata display
  next key hkey =>
    have hderived : derivedKey sdk cdata = some key := by
      rw [derivedKey, hread]
      exact hkey
    cases display with
    | false =>
      simp only [Bool.false_eq_true, if_false, pure_eq_ok, Prod.mk.injEq] at h
      exact h.1 ▸ .publicKeySent cdata key hderived
    | true =>
      simp only [if_true, pure_eq_ok, Prod.mk.injEq] at h
      exact h.1 ▸ .publicKeyShown cdata key hderived

theorem handleGetAddress_ok {sdk : Sdk} {locals : Locals} {cdata : List UInt8} {display : Bool}
    {device next : Device} {reply : Option Reply}
    (h : handleGetAddress sdk cdata display device = .ok (next, reply)) :
    Handled sdk locals device (.getAddress cdata display) next := by
  simp only [handleGetAddress, bind_eq_ok, load_eq_ok] at h
  obtain ⟨accountNumber, haccount, walletType, htype, ⟨address, bc, dc⟩, hcomputed, h⟩ := h
  cases display with
  | false =>
    simp only [Bool.false_eq_true, if_false, pure_eq_ok, Prod.mk.injEq] at h
    exact h.1 ▸ .addressSent cdata
  | true =>
    simp only [if_true, pure_eq_ok, Prod.mk.injEq] at h
    exact h.1 ▸ .addressShown cdata haccount htype hcomputed

theorem readUintBE_lt (bytes : List UInt8) : readUintBE bytes < 256 ^ bytes.length := by
  have hfold : ∀ (bytes : List UInt8) (value : Nat),
      bytes.foldl (fun value byte => value * 256 + byte.toNat) value <
        (value + 1) * 256 ^ bytes.length := by
    intro bytes
    induction bytes with
    | nil => intro value; simp
    | cons byte bytes ih =>
      intro value
      have hbyte := byte.toNat_lt
      rw [List.foldl_cons, List.length_cons, Nat.pow_succ']
      calc _ < (value * 256 + byte.toNat + 1) * 256 ^ bytes.length := ih _
        _ ≤ (value + 1) * 256 * 256 ^ bytes.length := Nat.mul_le_mul_right _ (by omega)
        _ = (value + 1) * (256 * 256 ^ bytes.length) := Nat.mul_assoc ..
  simpa [readUintBE] using hfold bytes 0

theorem readU32BE_lt {cdata : List UInt8} {offset value : Nat}
    (h : readU32BE cdata offset = .ok value) : value < 256 ^ 4 := by
  simp only [readU32BE, bind_eq_ok, loadMany_eq_ok, pure_eq_ok] at h
  obtain ⟨bytes, ⟨hle, rfl⟩, rfl⟩ := h
  have hlt := readUintBE_lt ((cdata.drop offset).take 4)
  rwa [List.length_take_of_le hle] at hlt

theorem handleSign_ok {sdk : Sdk} {locals : Locals} {cdata : List UInt8} {device next : Device}
    {reply : Option Reply} (h : handleSign sdk cdata device = .ok (next, reply)) :
    Handled sdk locals device (.sign cdata) next := by
  simp only [handleSign, bind_eq_ok, loadMany_eq_ok, pure_eq_ok, Prod.mk.injEq] at h
  obtain ⟨_, _, accountNumber, haccount, _, _, message, ⟨hlength, rfl⟩, rfl, _⟩ := h
  exact .messageShown cdata accountNumber _ (readU32BE_lt haccount) (List.length_take_of_le hlength)

theorem handleSignTransaction_ok {sdk : Sdk} {locals : Locals} {cdata : List UInt8}
    {isFirstChunk more : Bool} {device next : Device} {reply : Option Reply}
    (h : handleSignTransaction sdk locals cdata isFirstChunk more device = .ok (next, reply)) :
    Handled sdk locals device (.signTransaction cdata isFirstChunk more) next := by
  simp only [handleSignTransaction, bind_eq_ok] at h
  obtain ⟨received, hreceived, h⟩ := h
  cases more with
  | true =>
    simp only [if_true, pure_eq_ok, Prod.mk.injEq] at h
    exact h.1 ▸ .chunkKept cdata isFirstChunk hreceived
  | false =>
    simp only [Bool.false_eq_true, if_false, finishTransaction, bind_eq_ok, pure_eq_ok,
      Prod.mk.injEq] at h
    obtain ⟨prepared, hprepared, rfl, -⟩ := h
    exact .transactionShown cdata isFirstChunk hreceived hprepared

theorem handle_ok {sdk : Sdk} {locals : Locals} {request : Request} {device next : Device}
    {reply : Option Reply} (h : handle sdk locals request device = .ok (next, reply)) :
    Handled sdk locals device request next := by
  cases request with
  | getAppConfiguration =>
    simp only [handle, handleGetAppConfiguration, pure_eq_ok, Prod.mk.injEq] at h
    exact h.1 ▸ .configurationSent
  | getPublicKey cdata display => exact handleGetPublicKey_ok h
  | getAddress cdata display => exact handleGetAddress_ok h
  | sign cdata => exact handleSign_ok h
  | signTransaction cdata isFirstChunk more => exact handleSignTransaction_ok h
  | refused error =>
    simp only [handle, pure_eq_ok, Prod.mk.injEq] at h
    exact h.1 ▸ .refused error

/-- The device after a step, and what the step made visible. -/
inductive Stepped (sdk : Sdk) (device : Device) : Event → Device → Effect → Prop where
  | restarted (cmd : Command) (locals : Locals) (effect : Effect) (silent : effect.signer = none) :
      Stepped sdk device (.command cmd locals) .initial effect
  | handled {cmd : Command} {locals : Locals} {next : Device}
      (h : Handled sdk locals device cmd.request next) (effect : Effect)
      (silent : effect.signer = none) : Stepped sdk device (.command cmd locals) next effect
  | approved {screen : Screen} (shown : device.screen = some screen) :
      Stepped sdk device (.answer true)
        { (approve sdk screen.callback device).1 with screen := none }
        (approve sdk screen.callback device).2
  | rejected {screen : Screen} (shown : device.screen = some screen) (effect : Effect)
      (silent : effect.signer = none) :
      Stepped sdk device (.answer false) { device with screen := none } effect

theorem step_ok {sdk : Sdk} {device next : Device} {event : Event} {effect : Effect}
    (h : step sdk device event = some (next, effect)) : Stepped sdk device event next effect := by
  cases event with
  | command cmd locals =>
    simp only [step] at h
    split at h
    next handled reply hhandle =>
      obtain ⟨rfl, rfl⟩ := Prod.mk.inj (Option.some.inj h)
      exact .handled (handle_ok hhandle) _ rfl
    next =>
      obtain ⟨rfl, rfl⟩ := Prod.mk.inj (Option.some.inj h)
      exact .restarted cmd locals _ rfl
    next => cases h
  | answer choice =>
    simp only [step] at h
    split at h
    next => cases h
    next screen hscreen =>
      cases choice with
      | true =>
        obtain ⟨rfl, rfl⟩ := Prod.mk.inj (Option.some.inj h)
        exact .approved hscreen
      | false =>
        obtain ⟨rfl, rfl⟩ := Prod.mk.inj (Option.some.inj h)
        exact .rejected hscreen _ rfl

/-- A property of the waiting screen survives every step that handles no command: no screen
waits after such a step. -/
theorem Stepped.waiting {sdk : Sdk} {device next : Device} {event : Event} {effect : Effect}
    (h : Stepped sdk device event next effect) (property : Device → Screen → Prop)
    (hhandled : ∀ cmd locals, event = .command cmd locals →
      Handled sdk locals device cmd.request next →
      ∀ screen, next.screen = some screen → property next screen) :
    ∀ screen, next.screen = some screen → property next screen := by
  intro screen hscreen
  cases h with
  | restarted cmd locals effect silent => cases hscreen
  | @handled cmd locals next h effect silent => exact hhandled cmd locals rfl h screen hscreen
  | approved shown => cases hscreen
  | rejected shown effect silent => cases hscreen

/-- An approval of a key or an address clears the contexts; a signature is written
to its field, and touches nothing else. -/
theorem approve_device (sdk : Sdk) (callback : Callback) (device : Device) :
    (approve sdk callback device).1 = device.resetAppContext ∧
        (callback = .validatePubkey ∨ callback = .validateAddress) ∨
      (callback = .validateMessage ∨ callback = .validateTransaction) ∧
        ((approve sdk callback device).1 = device ∨
          ∃ (field : Field) (signature : Vector UInt8 64),
            (field = DataContext.signContext.signature ∨
              field = DataContext.signTrContext.signature) ∧
            (approve sdk callback device).1 =
              { device with
                dataContext := device.dataContext.write field.offset signature.toList }) := by
  have hsign : ∀ accountNumber message (field : Field) (respond : Device → Device × Reply),
      (∀ d, (respond d).1 = d) →
      (cryptoSign sdk accountNumber message field device respond).1 = device ∨
        ∃ signature : Vector UInt8 64,
          (cryptoSign sdk accountNumber message field device respond).1 =
            { device with
              dataContext := device.dataContext.write field.offset signature.toList } := by
    intro accountNumber message field respond hrespond
    unfold cryptoSign
    split
    · exact Or.inl rfl
    split
    · exact Or.inl rfl
    next signature _ => exact Or.inr ⟨signature, hrespond _⟩
  cases callback with
  | validatePubkey => exact Or.inl ⟨rfl, Or.inl rfl⟩
  | validateAddress => exact Or.inl ⟨rfl, Or.inr rfl⟩
  | validateMessage =>
    refine Or.inr ⟨Or.inl rfl, ?_⟩
    obtain hsame | ⟨signature, hwritten⟩ := hsign _ _ _ helperSendResponseSign fun _ => rfl
    · exact Or.inl hsame
    · exact Or.inr ⟨_, signature, Or.inl rfl, hwritten⟩
  | validateTransaction =>
    refine Or.inr ⟨Or.inr rfl, ?_⟩
    obtain hsame | ⟨signature, hwritten⟩ := hsign _ _ _ helperSendResponseSignTransaction fun _ => rfl
    · exact Or.inl hsame
    · exact Or.inr ⟨_, signature, Or.inr rfl, hwritten⟩

end EverscaleLedger.Properties
