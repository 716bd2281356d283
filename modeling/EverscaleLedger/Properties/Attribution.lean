import EverscaleLedger.Properties.WalletRefinement

/-! Where signatures come from: every call of the signer answers a screen, and the bytes
that are signed are those of one whole request, which the client sent before it. -/
namespace EverscaleLedger.Properties

open Library Source

/-- Requests that change nothing. -/
inductive Neutral (sdk : Sdk) : Request → Prop where
  | configuration : Neutral sdk .getAppConfiguration
  | refused (error : Err) : Neutral sdk (.refused error)
  | keyFailed (cdata : List UInt8) (display : Bool) (failed : derivedKey sdk cdata = none) :
      Neutral sdk (.getPublicKey cdata display)

/-- The last commands have sent a transaction: a first chunk and further chunks, with
nothing but neutral requests between and behind them. -/
inductive Collected (sdk : Sdk) : List Event → Incoming → Prop where
  | first (earlier : List Event) {cmd : Command} (locals : Locals) {cdata : List UInt8}
      {more : Bool} {incoming : Incoming} (request : cmd.request = .signTransaction cdata true more)
      (read : Incoming.first sdk cdata = .ok incoming) :
      Collected sdk (earlier ++ [.command cmd locals]) incoming
  | next {events : List Event} {cmd : Command} (locals : Locals) {cdata : List UInt8}
      {more : Bool} {incoming extended : Incoming} (earlier : Collected sdk events incoming)
      (request : cmd.request = .signTransaction cdata false more)
      (read : incoming.extend cdata = .ok extended) :
      Collected sdk (events ++ [.command cmd locals]) extended
  | neutral {events : List Event} {cmd : Command} (locals : Locals) {incoming : Incoming}
      (earlier : Collected sdk events incoming) (request : Neutral sdk cmd.request) :
      Collected sdk (events ++ [.command cmd locals]) incoming

/-- The last command that was not neutral has asked for an approval of this value. -/
inductive Offered (sdk : Sdk) : List Event → Released → Prop where
  | publicKey (earlier : List Event) {cmd : Command} (locals : Locals) {cdata : List UInt8}
      {key : Hash} (request : cmd.request = .getPublicKey cdata true)
      (derived : derivedKey sdk cdata = some key) :
      Offered sdk (earlier ++ [.command cmd locals]) (.publicKey key.toList)
  | address (earlier : List Event) {cmd : Command} (locals : Locals) {cdata : List UInt8}
      {accountNumber : Nat} {walletType : UInt8} {address : Hash}
      (request : cmd.request = .getAddress cdata true)
      (account : readU32BE cdata 0 = .ok accountNumber) (typed : load cdata 4 = .ok walletType)
      (computed : walletAddress sdk accountNumber walletType = .ok address) :
      Offered sdk (earlier ++ [.command cmd locals]) (.address address.toList)
  | message (earlier : List Event) {cmd : Command} (locals : Locals) {cdata message : List UInt8}
      {accountNumber : Nat} (request : cmd.request = .sign cdata)
      (account : readU32BE cdata 0 = .ok accountNumber)
      (read : loadMany (cdata.drop 4) toSignLength = .ok message) :
      Offered sdk (earlier ++ [.command cmd locals])
        (.messageSignature accountNumber (signMagic ++ message))
  | transaction {earlier : List Event} {cmd : Command} {locals : Locals} {cdata : List UInt8}
      {isFirstChunk : Bool} {incoming : Incoming} {value : Released}
      (sent : Collected sdk (earlier ++ [.command cmd locals]) incoming)
      (request : cmd.request = .signTransaction cdata isFirstChunk false)
      (offer : incoming.offer sdk = .ok value) :
      Offered sdk (earlier ++ [.command cmd locals]) value
  | neutral {events : List Event} {cmd : Command} (locals : Locals) {value : Released}
      (earlier : Offered sdk events value) (request : Neutral sdk cmd.request) :
      Offered sdk (events ++ [.command cmd locals]) value

/-- What the wallet holds was sent by the commands so far. -/
def Wallet.Sent (sdk : Sdk) (events : List Event) : Wallet → Prop
  | .idle => True
  | .receiving incoming => Collected sdk events incoming
  | .waiting value => Offered sdk events value

theorem Wallet.Sent.neutral {sdk : Sdk} {events : List Event} {wallet : Wallet}
    (h : wallet.Sent sdk events) {cmd : Command} (locals : Locals)
    (hrequest : Neutral sdk cmd.request) :
    wallet.Sent sdk (events ++ [.command cmd locals]) := by
  cases wallet with
  | idle => trivial
  | receiving incoming => exact Collected.neutral locals h hrequest
  | waiting value => exact Offered.neutral locals h hrequest

theorem Wallet.receive_sent {sdk : Sdk} {events : List Event} {wallet : Wallet}
    (h : wallet.Sent sdk events) {cmd : Command} (locals : Locals) {cdata : List UInt8}
    {isFirstChunk more : Bool} (hrequest : cmd.request = .signTransaction cdata isFirstChunk more)
    {incoming : Incoming} (hreceive : wallet.receive sdk cdata isFirstChunk = .ok incoming) :
    Collected sdk (events ++ [.command cmd locals]) incoming := by
  cases isFirstChunk with
  | true => exact .first events locals hrequest hreceive
  | false =>
    cases wallet with
    | receiving earlier => exact .next locals h hrequest hreceive
    | idle => cases hreceive
    | waiting value => cases hreceive

/-- A command keeps it so. -/
theorem Wallet.handle_sent {sdk : Sdk} {events : List Event} {wallet next : Wallet}
    {reply : Option Reply} (h : wallet.Sent sdk events) {cmd : Command} (locals : Locals)
    (hhandle : wallet.handle sdk cmd.request = .ok (next, reply)) :
    next.Sent sdk (events ++ [.command cmd locals]) := by
  have hdelivered : ∀ (value : Released) (display : Bool),
      (display = true → Offered sdk (events ++ [.command cmd locals]) value) →
        (Wallet.deliver sdk value display).1.Sent sdk (events ++ [.command cmd locals]) := by
    intro value display hoffered
    cases display with
    | true => exact hoffered rfl
    | false => trivial
  generalize hrequest : cmd.request = request at hhandle
  cases request with
  | getAppConfiguration =>
    obtain ⟨rfl, -⟩ := Prod.mk.inj (Except.ok.inj hhandle)
    exact h.neutral locals (hrequest ▸ .configuration)
  | refused error =>
    obtain ⟨rfl, -⟩ := Prod.mk.inj (Except.ok.inj hhandle)
    exact h.neutral locals (hrequest ▸ .refused error)
  | getPublicKey cdata display =>
    simp only [Wallet.handle, bind_eq_ok] at hhandle
    obtain ⟨accountNumber, haccount, hhandle⟩ := hhandle
    have hderived : derivedKey sdk cdata = getPublicKey sdk accountNumber := by
      unfold derivedKey
      rw [haccount]
    cases hkey : getPublicKey sdk accountNumber with
    | none =>
      rw [hkey] at hhandle hderived
      obtain ⟨rfl, -⟩ := Prod.mk.inj (Except.ok.inj hhandle)
      exact h.neutral locals (hrequest ▸ .keyFailed cdata display hderived)
    | some key =>
      rw [hkey] at hhandle hderived
      rw [show next = _ from (congrArg Prod.fst (Except.ok.inj hhandle)).symm]
      exact hdelivered _ _ fun hdisplay => .publicKey events locals (hdisplay ▸ hrequest) hderived
  | getAddress cdata display =>
    simp only [Wallet.handle, bind_eq_ok] at hhandle
    obtain ⟨accountNumber, haccount, walletType, htyped, address, haddress, hhandle⟩ := hhandle
    rw [show next = _ from (congrArg Prod.fst (Except.ok.inj hhandle)).symm]
    exact hdelivered _ _ fun hdisplay =>
      .address events locals (hdisplay ▸ hrequest) haccount htyped haddress
  | sign cdata =>
    simp only [Wallet.handle, bind_eq_ok, pure_eq_ok, Prod.mk.injEq] at hhandle
    obtain ⟨_, -, accountNumber, haccount, _, -, message, hmessage, rfl, -⟩ := hhandle
    exact .message events locals hrequest haccount hmessage
  | signTransaction cdata isFirstChunk more =>
    simp only [Wallet.handle, bind_eq_ok] at hhandle
    obtain ⟨incoming, hreceive, hhandle⟩ := hhandle
    have hsent := Wallet.receive_sent h locals hrequest hreceive
    cases more with
    | true =>
      obtain ⟨rfl, -⟩ := Prod.mk.inj (Except.ok.inj hhandle)
      exact hsent
    | false =>
      simp only [Bool.false_eq_true, if_false, bind_eq_ok, pure_eq_ok, Prod.mk.injEq] at hhandle
      obtain ⟨value, hoffer, rfl, -⟩ := hhandle
      exact .transaction hsent hrequest hoffer

theorem Wallet.step_sent {sdk : Sdk} {events : List Event} {wallet next : Wallet} {event : Event}
    {effect : Effect} (h : wallet.Sent sdk events)
    (hstep : wallet.step sdk event = some (next, effect)) :
    next.Sent sdk (events ++ [event]) := by
  cases Wallet.step_ok hstep with
  | handled locals _ hhandle => exact Wallet.handle_sent h locals hhandle
  | ended => trivial
  | approved => trivial
  | rejected => trivial

theorem Wallet.sent_of_trace {sdk : Sdk} {trace : List (Event × Effect)} {wallet : Wallet}
    (h : Trace (Wallet.step sdk) .idle trace wallet) :
    wallet.Sent sdk (trace.map Prod.fst) := by
  induction h with
  | nil => trivial
  | snoc _ last ih =>
    rw [List.map_append]
    exact Wallet.step_sent ih last

/-- Who signs what. -/
def Signs (sdk : Sdk) (value : Released) (call : SignerCall) : Prop :=
  ∃ accountNumber, getPrivateKey sdk accountNumber = some call.key ∧
    (value = .messageSignature accountNumber call.message ∨
      value = .transactionSignature accountNumber call.message)

theorem signedEffect_signs {sdk : Sdk} {accountNumber : Nat} {message : List UInt8}
    {call : SignerCall} (h : (signedEffect sdk accountNumber message).signer = some call) :
    getPrivateKey sdk accountNumber = some call.key ∧ message = call.message := by
  unfold signedEffect at h
  cases hkey : getPrivateKey sdk accountNumber with
  | none =>
    rw [hkey] at h
    cases h
  | some key =>
    rw [hkey] at h
    dsimp only at h
    cases hsigned : sdk.eddsaSign key message with
    | none =>
      rw [hsigned] at h
      obtain rfl := Option.some.inj h
      exact ⟨rfl, rfl⟩
    | some signature =>
      rw [hsigned] at h
      obtain rfl := Option.some.inj h
      exact ⟨rfl, rfl⟩

theorem releasedEffect_signs {sdk : Sdk} {value : Released} {call : SignerCall}
    (h : (releasedEffect sdk value).signer = some call) : Signs sdk value call := by
  cases value with
  | publicKey key => cases h
  | address address => cases h
  | messageSignature accountNumber message =>
    obtain ⟨hkey, rfl⟩ := signedEffect_signs h
    exact ⟨accountNumber, hkey, .inl rfl⟩
  | transactionSignature accountNumber message =>
    obtain ⟨hkey, rfl⟩ := signedEffect_signs h
    exact ⟨accountNumber, hkey, .inr rfl⟩

/-- The wallet calls the signer on an approval only. -/
theorem Wallet.step_signs {sdk : Sdk} {events : List Event} {wallet next : Wallet} {event : Event}
    {effect : Effect} {call : SignerCall} (h : wallet.Sent sdk events)
    (hstep : wallet.step sdk event = some (next, effect)) (hcall : effect.signer = some call) :
    event = .answer true ∧ ∃ value, Offered sdk events value ∧ Signs sdk value call := by
  cases Wallet.step_ok hstep with
  | handled => cases hcall
  | ended => cases hcall
  | @approved value offers =>
    subst offers
    exact ⟨rfl, value, h, releasedEffect_signs hcall⟩
  | rejected => cases hcall

/-- In a run that the wallet admits, every call of the signer is the answer to an approval,
for a value that the request before it has offered: a message, or a transaction that was
sent whole, with the key of the account that the request names. -/
theorem signatures_attributed (sdk : Sdk) {trace : List (Event × Effect)} {wallet : Wallet}
    {device : Device} (hadmitted : Run (Wallet.step sdk) .idle (trace.map Prod.fst) wallet)
    (hclean : FitsAlong (step sdk) AddressesClean .initial (trace.map Prod.fst))
    (hrun : Trace (step sdk) .initial trace device) {earlier later : List (Event × Effect)}
    {event : Event} {effect : Effect} (htrace : trace = earlier ++ (event, effect) :: later)
    {call : SignerCall} (hcall : effect.signer = some call) :
    event = .answer true ∧ ∃ value, Offered sdk (earlier.map Prod.fst) value ∧
      Signs sdk value call := by
  obtain ⟨specified, hspec, hevents⟩ := hadmitted.trace
  obtain ⟨device', hrun', -⟩ := walletTrace_implemented sdk hspec (hevents ▸ hclean)
  obtain ⟨rfl, -⟩ := hrun.unique hrun' hevents.symm
  obtain ⟨before, after, hbefore, hstep⟩ := hspec.split htrace
  exact Wallet.step_signs (Wallet.sent_of_trace hbefore) hstep hcall

/-- The transfer of a run is approved: its signature belongs to it. -/
theorem signatures_attributed_transfer :
    ∃ (earlier : List (Event × Effect)) (effect : Effect) (call : SignerCall) (device : Device),
      Trace (step testSdk) .initial (earlier ++ [(.answer true, effect)]) device ∧
      earlier.map Prod.fst = addressThenTransfer.take 3 ∧ effect.signer = some call ∧
      ∃ value, Offered testSdk (earlier.map Prod.fst) value ∧ Signs testSdk value call := by
  obtain ⟨wallet, hadmitted, -⟩ : ∃ wallet,
      Run (Wallet.step testSdk) .idle addressThenTransfer wallet ∧ True :=
    exists_run (by decide +kernel)
  obtain ⟨waiting, hwaiting, ⟨next, effect⟩, hstep, hsigned⟩ : ∃ waiting,
      Run (step testSdk) .initial (addressThenTransfer.take 3) waiting ∧
        Yields (step testSdk waiting (.answer true)) fun result => result.2.signer.isSome = true :=
    exists_run (by decide +kernel)
  obtain ⟨earlier, hearlier, hevents⟩ := hwaiting.trace
  obtain ⟨call, hcall⟩ := Option.isSome_iff_exists.mp hsigned
  have hrun := hearlier.snoc hstep
  have hall : (earlier ++ [(Event.answer true, effect)]).map Prod.fst = addressThenTransfer := by
    rw [List.map_append, hevents]
    rfl
  exact ⟨earlier, effect, call, next, hrun, hevents, hcall,
    (signatures_attributed testSdk (hall ▸ hadmitted) (hall ▸ addressThenTransfer_clean) hrun rfl
      hcall).2⟩

end EverscaleLedger.Properties
