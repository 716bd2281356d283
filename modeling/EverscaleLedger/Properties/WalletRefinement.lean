import EverscaleLedger.Library.Refinement
import EverscaleLedger.Properties.UnsetLocals
import EverscaleLedger.Properties.WalletSpec

/-! The device implements the wallet: along every run that the wallet has, the device
gives the same replies and calls the signer in the same way. -/
namespace EverscaleLedger.Properties

open Library Source

/-! Addresses. -/

/-- Contexts with harmless leftovers give the address of the wallet, or its error. -/
theorem walletAddress_alike (sdk : Sdk) (accountNumber : Nat) (walletType : UInt8)
    {bc : BocContext} (h : Harmless bc) (dc : DataContext) :
    Alike (fun address result => result.1 = address) (walletAddress sdk accountNumber walletType)
      (getAddress sdk accountNumber walletType bc dc) := by
  unfold walletAddress
  cases htype : WalletType.ofByte walletType with
  | none =>
    unfold getAddress
    rw [htype]
    exact .error _
  | some type =>
    cases hkey : getPublicKey sdk accountNumber with
    | none =>
      have hfailed : getAddress sdk accountNumber walletType bc dc =
          .error (.thrown .getPublicKeyFailed) := by
        cases hwallet : multisigWallet type with
        | none =>
          unfold getAddress computeWalletV3Address computeEverWalletAddress
          rw [htype]
          cases type with
          | walletV3 => rw [hkey]; rfl
          | everWallet => rw [hkey]; rfl
          | _ => cases hwallet
        | some wallet =>
          rw [getAddress_multisig sdk accountNumber htype hwallet bc dc, computeMultisigAddress_eq,
            MultisigWallet.load_eq hwallet h.keyData, ok_bind, hkey]
      rw [hfailed]
      exact .error _
    | some publicKey =>
      obtain ⟨data, left, written, hdata, hfresh⟩ := getAddress_digest hkey htype dc
      obtain ⟨left', written', haddress⟩ := getAddress_agree harmless_zero h hfresh dc
      rw [haddress]
      apply Alike.ok
      simp only [stateInitHash, hdata]

/-! Transactions. -/

/-- Two requests that `prepare_to_sign` makes the same of: the chain id counts only with
its flag. -/
structure SameRequest (a b : SigningRequest) : Prop where
  wc : a.wc = b.wc
  address : a.address = b.address
  prependAddress : a.prependAddress = b.prependAddress
  currentWalletType : a.ctx.currentWalletType = b.ctx.currentWalletType
  decimals : a.ctx.decimals = b.ctx.decimals
  ticker : a.ctx.ticker = b.ctx.ticker
  signWithChainId : a.ctx.signWithChainId = b.ctx.signWithChainId
  chainId : a.ctx.signWithChainId = true → a.ctx.chainId = b.ctx.chainId

theorem preparePayloadHash_same {sdk : Sdk} {ctx ctx' : SignTransactionContext}
    (hflag : ctx.signWithChainId = ctx'.signWithChainId)
    (hchain : ctx.signWithChainId = true → ctx.chainId = ctx'.chainId) :
    preparePayloadHash sdk ctx = preparePayloadHash sdk ctx' := by
  funext bc
  unfold preparePayloadHash
  rw [← hflag]
  cases hset : ctx.signWithChainId with
  | false => rfl
  | true => rw [hchain hset]

theorem SameRequest.prepare_eq {a b : SigningRequest} (h : SameRequest a b) (sdk : Sdk)
    (locals : Locals) (bc : BocContext) (src : ByteStream) :
    a.prepare sdk locals bc src = b.prepare sdk locals bc src := by
  obtain ⟨⟨flag, chainId, type, decimals, ticker⟩, wc, address, prependAddress⟩ := a
  obtain ⟨⟨flag', chainId', type', decimals', ticker'⟩, wc', address', prependAddress'⟩ := b
  obtain ⟨rfl, rfl, rfl, rfl, rfl, rfl, hflag, hchain⟩ := h
  simp only [SigningRequest.prepare, prepareToSign]
  rw [preparePayloadHash_same hflag hchain]
  rfl

/-- A header by the positions of its fields. -/
def Incoming.ofHeader (cdata : List UInt8) (address : Hash) : Incoming where
  accountNumber := FirstChunk.accountNumber cdata
  request :=
    { ctx :=
        { signWithChainId := FirstChunk.Announces cdata flagWithChainId
          chainId := (FirstChunk.chainId cdata).getD []
          currentWalletType := FirstChunk.currentWalletType cdata
          decimals := (FirstChunk.decimals cdata).toNat
          ticker := FirstChunk.ticker cdata ++
            List.replicate (maxTickerLen - FirstChunk.tickerLen cdata) 0 }
      wc := FirstChunk.wc cdata
      address := address.toList
      prependAddress := FirstChunk.prependAddress cdata address.toList }
  payload := []

theorem Incoming.header_ok {sdk : Sdk} {cdata : List UInt8} {incoming : Incoming} {offset : Nat}
    (h : Incoming.header sdk cdata = .ok (incoming, offset)) :
    ∃ address, walletAddress sdk (FirstChunk.accountNumber cdata)
        (FirstChunk.originWalletType cdata) = .ok address ∧
      incoming = Incoming.ofHeader cdata address ∧ offset = FirstChunk.payloadAt cdata := by
  simp only [Incoming.header, bind_eq_ok] at h
  obtain ⟨⟨account, p1⟩, h1, ⟨origin, p2⟩, h2, ⟨decimals, p3⟩, h3, ⟨size, p4⟩, h4, h⟩ := h
  obtain ⟨rfl, -, rfl⟩ := takeField_ok h1
  obtain ⟨rfl, rfl⟩ := takeByte_ok h2
  obtain ⟨rfl, rfl⟩ := takeByte_ok h3
  obtain ⟨rfl, rfl⟩ := takeByte_ok h4
  simp only [List.headD_cons] at h
  obtain ⟨_, -, ⟨ticker, p5⟩, h5, ⟨metadata, p6⟩, h6, ⟨wallet, p7⟩, h7, address, h8, ⟨wc, p8⟩, h9,
    ⟨prepend, p9⟩, h10, ⟨chain, p10⟩, h11, h⟩ := h
  obtain ⟨rfl, -, rfl⟩ := takeField_ok h5
  obtain ⟨rfl, rfl⟩ := takeByte_ok h6
  obtain ⟨rfl, rfl⟩ := takeByteIfPresent_ok h7
  obtain ⟨rfl, rfl⟩ := takeByteIfPresent_ok h9
  obtain ⟨rfl, -, rfl⟩ := takeIfPresent_ok h10
  obtain ⟨rfl, -, rfl⟩ := takeIfPresent_ok h11
  rw [pure_eq_ok, Prod.mk.injEq] at h
  obtain ⟨rfl, rfl⟩ := h
  have hwalletIdAt : 0 + 4 + 1 + 1 + 1 + (FirstChunk.byteAt cdata (0 + 4 + 1 + 1)).toNat + 1 =
      FirstChunk.walletIdAt cdata := by
    change 0 + 4 + 1 + 1 + 1 + FirstChunk.tickerLen cdata + 1 = 8 + FirstChunk.tickerLen cdata
    omega
  simp only [hwalletIdAt]
  refine ⟨address, h8, ?_, rfl⟩
  have hchain : (FirstChunk.chainId cdata).getD [] =
      if FirstChunk.Announces cdata flagWithChainId then
        FirstChunk.bytesAt cdata (FirstChunk.chainIdAt cdata) chainIdLength else [] := by
    unfold FirstChunk.chainId
    split
    · rfl
    · rfl
  unfold Incoming.ofHeader
  rw [hchain]
  rfl

/-- Both readers of a header fail in the same way. -/
theorem Incoming.header_alike (sdk : Sdk) (cdata : List UInt8) :
    Alike (fun _ _ => True) (Incoming.header sdk cdata)
      (readFirstChunk sdk cdata BocContext.zero Memory.zero) := by
  unfold Incoming.header readFirstChunk
  apply Alike.step
  rintro ⟨bytes, offset⟩ -
  apply Alike.step
  rintro ⟨originWalletType, offset⟩ -
  apply Alike.step
  rintro ⟨decimals, offset⟩ -
  apply Alike.step
  rintro ⟨tickerLen, offset⟩ -
  apply Alike.step
  intro _ _
  apply Alike.step
  rintro ⟨ticker, offset⟩ -
  apply Alike.step
  rintro ⟨metadata, offset⟩ -
  apply Alike.step
  rintro ⟨currentWalletType, offset⟩ -
  apply (walletAddress_alike sdk _ _ harmless_zero _).bind
  rintro address ⟨_, left, written⟩ rfl
  apply Alike.step
  rintro ⟨wc, offset⟩ -
  apply Alike.step
  rintro ⟨prependAddress, offset⟩ -
  unfold takeIfPresent
  dsimp only
  by_cases hflag : (metadata.headD 0).toNat &&& flagWithChainId ≠ 0
  · rw [if_pos hflag, if_pos hflag]
    apply Alike.step
    rintro ⟨chainId, offset⟩ -
    exact .ok trivial
  · rw [if_neg hflag, if_neg hflag]
    exact .ok trivial

/-- What is held of a transaction in the union. -/
structure Incoming.HeldIn (incoming : Incoming) (dc : DataContext) : Prop where
  accountNumber : dc.readUint DataContext.signTrContext.accountNumber = incoming.accountNumber
  request : SameRequest incoming.request (requestOf dc)
  payload : buffered dc = incoming.payload
  dataOffset : dc.readUint DataContext.signTrContext.dataOffset = incoming.payload.length
  room : incoming.payload.length < maxDataLen

/-- A field of one byte. -/
theorem read_byte {field : Field} (hsize : field.size = 1) (dc : DataContext) :
    dc.read field = [dc field.offset] := by
  unfold Memory.read
  rw [hsize]
  rfl

theorem byte_of_read {field : Field} {byte : UInt8} {dc : DataContext} (hsize : field.size = 1)
    (h : dc.read field = [byte]) : dc field.offset = byte := by
  rw [read_byte hsize] at h
  exact List.singleton_inj.mp h

theorem requestOf_of_read {dc next : DataContext}
    (h : ∀ field ∈ headerFields, next.read field = dc.read field) :
    requestOf next = requestOf dc := by
  have hbyte : ∀ field ∈ headerFields, field.size = 1 → next field.offset = dc field.offset := by
    intro field hfield hsize
    exact byte_of_read hsize ((h field hfield).trans (read_byte hsize dc))
  unfold requestOf SignTransactionContext.ofData
  rw [hbyte DataContext.signTrContext.signWithChainId (by decide) rfl,
    hbyte DataContext.signTrContext.currentWalletType (by decide) rfl,
    hbyte DataContext.signTrContext.decimals (by decide) rfl,
    hbyte DataContext.signTrContext.wc (by decide) rfl,
    h DataContext.signTrContext.chainId (by decide),
    h DataContext.signTrContext.ticker (by decide),
    h DataContext.signTrContext.address (by decide),
    h DataContext.signTrContext.prependAddress (by decide)]

theorem Incoming.heldIn_of_header {sdk : Sdk} {cdata : List UInt8} {dc : DataContext}
    {address : Hash} (h : HeaderHeld sdk cdata dc)
    (haddress : walletAddress sdk (FirstChunk.accountNumber cdata)
      (FirstChunk.originWalletType cdata) = .ok address)
    (hempty : dc.readUint DataContext.signTrContext.dataOffset = 0) :
    (Incoming.ofHeader cdata address).HeldIn dc := by
  obtain ⟨derived, left, written, hderived, haddressHeld, hprepend⟩ := h.addresses
  have hsame := walletAddress_alike sdk (FirstChunk.accountNumber cdata)
    (FirstChunk.originWalletType cdata) harmless_zero Memory.zero
  rw [haddress, hderived] at hsame
  cases hsame with
  | ok heq =>
    obtain rfl : derived = address := heq
    refine ⟨h.accountNumber, ?_, ?_, hempty, show 0 < maxDataLen by decide⟩
    · constructor
      · exact (byte_of_read rfl h.wc).symm
      · exact haddressHeld.symm
      · exact hprepend.symm
      · exact (byte_of_read rfl h.currentWalletType).symm
      · exact congrArg UInt8.toNat (byte_of_read rfl h.decimals).symm
      · exact h.ticker.symm
      · have hflag := byte_of_read rfl h.signWithChainId
        simp only [Incoming.ofHeader, requestOf, SignTransactionContext.ofData]
        rw [hflag]
        by_cases hannounced : FirstChunk.Announces cdata flagWithChainId
        · simp [hannounced]
        · simp [hannounced]
      · intro hset
        have hannounced : FirstChunk.Announces cdata flagWithChainId := of_decide_eq_true hset
        have hchain : FirstChunk.chainId cdata =
            some (FirstChunk.bytesAt cdata (FirstChunk.chainIdAt cdata) chainIdLength) :=
          if_pos hannounced
        have hheld := h.chainId _ hchain
        simp only [Incoming.ofHeader, hchain, Option.getD_some]
        exact hheld.symm
    · unfold buffered
      rw [hempty]
      rfl

theorem Incoming.extend_alike {incoming : Incoming} {dc : DataContext} (h : incoming.HeldIn dc)
    (payload : List UInt8) :
    Alike Incoming.HeldIn (incoming.extend payload) (appendPayload payload dc) := by
  have hextended : Alike
      (fun next _ => next = { incoming with payload := incoming.payload ++ payload })
      (incoming.extend payload) (appendPayload payload dc) := by
    simp only [Incoming.extend, appendPayload]
    rw [h.dataOffset]
    split
    next =>
      apply Alike.step
      intro _ _
      exact .ok rfl
    next hnone =>
      have hempty : payload = [] := List.eq_nil_of_length_eq_zero (by omega)
      rw [hempty, List.append_nil]
      exact .ok rfl
  apply hextended.with_ok.mono
  rintro _ next ⟨rfl, -, hnext⟩
  have hlength : (buffered dc).length = incoming.payload.length := by rw [h.payload]
  obtain ⟨hbuffered, hoffset, hroom, hsame⟩ := appendPayload_ok hnext
    (h.dataOffset.trans hlength.symm) (hlength ▸ h.room)
  rw [h.payload] at hbuffered hoffset hroom
  refine ⟨?_, ?_, hbuffered, hoffset, hroom⟩
  · rw [Memory.readUint, hsame _ (by decide)]
    exact h.accountNumber
  · rw [requestOf_of_read hsame]
    exact h.request

/-! The relation. -/

/-- The device stands for a wallet: the same value is offered, and the transaction that the
wallet receives is held in cleared contexts. -/
structure Implements (device : Device) (wallet : Wallet) : Prop where
  offered : device.screen.map Screen.computed = wallet.offered
  received : ∀ incoming, wallet = .receiving incoming →
    incoming.HeldIn device.dataContext ∧ device.bocContext = BocContext.zero

theorem receiveChunk_implements (sdk : Sdk) {device : Device} {wallet : Wallet}
    (h : Implements device wallet) {cdata : List UInt8} {isFirstChunk more : Bool}
    (hadmits : wallet.admits (.signTransaction cdata isFirstChunk more) = true) :
    Alike (fun incoming held => incoming.HeldIn held.dataContext ∧
        held.bocContext = BocContext.zero ∧ held.screen = device.screen)
      (wallet.receive sdk cdata isFirstChunk) (receiveChunk sdk cdata isFirstChunk device) := by
  cases isFirstChunk with
  | true =>
    have hreceive : receiveChunk sdk cdata true device = (do
        let result ← readFirstChunk sdk cdata BocContext.zero Memory.zero
        let dc ← appendPayload (cdata.drop result.1) result.2.2
        pure ⟨result.2.1, dc, device.screen⟩) := rfl
    have hfirst : wallet.receive sdk cdata true = (do
        let result ← Incoming.header sdk cdata
        result.1.extend (cdata.drop result.2)) := rfl
    rw [hreceive, hfirst]
    apply (Incoming.header_alike sdk cdata).with_ok.bind
    rintro ⟨incoming, offset⟩ ⟨offset', bc, dc⟩ ⟨-, hheader, hread⟩
    obtain ⟨address, haddress, rfl, rfl⟩ := Incoming.header_ok hheader
    obtain ⟨hheld, rfl, rfl, hempty⟩ := readFirstChunk_ok hread
    have hstored := Incoming.heldIn_of_header hheld haddress hempty
    rw [← bind_pure (Incoming.extend _ _)]
    apply (Incoming.extend_alike hstored _).bind
    intro next dc hnext
    exact .ok ⟨hnext, rfl, rfl⟩
  | false =>
    cases wallet with
    | receiving incoming =>
      obtain ⟨hheld, hbc⟩ := h.received incoming rfl
      have hreceive : receiveChunk sdk cdata false device = (do
          let dc ← appendPayload cdata device.dataContext
          pure { device with dataContext := dc }) := rfl
      rw [hreceive, ← bind_pure (Wallet.receive ..)]
      apply (Incoming.extend_alike hheld cdata).bind
      intro next dc hnext
      exact .ok ⟨hnext, hbc, rfl⟩
    | idle => cases hadmits
    | waiting value => cases hadmits

/-- The buffered data is the payload. -/
theorem Incoming.HeldIn.loadMany_eq {incoming : Incoming} {dc : DataContext}
    (h : incoming.HeldIn dc) :
    loadMany (dc.read DataContext.signTrContext.data)
      (dc.readUint DataContext.signTrContext.dataOffset) = .ok incoming.payload := by
  rw [loadMany_eq_ok]
  refine ⟨?_, h.payload⟩
  rw [h.dataOffset, Memory.length_read]
  exact Nat.le_of_lt h.room

theorem finishTransaction_implements (sdk : Sdk) (locals : Locals) {device : Device} {incoming : Incoming}
    (h : incoming.HeldIn device.dataContext) (hbc : device.bocContext = BocContext.zero) :
    Alike (fun value result => result.1.screen.map Screen.computed = some value ∧ result.2 = none)
      (incoming.offer sdk) (finishTransaction sdk locals device) := by
  have hprepare : ∀ src, Alike SamePrepared
      (incoming.request.prepare sdk zeroLocals BocContext.zero src)
      ((requestOf device.dataContext).prepare sdk locals device.bocContext src) := by
    intro src
    rw [h.request.prepare_eq, hbc]
    exact SigningRequest.prepare_alike sdk zeroLocals locals _ (Memory.length_read ..) _ src
  have haccount : ∀ prepared, prepareTransaction sdk locals device = .ok prepared →
      (storePrepared device.dataContext prepared).readUint
        DataContext.signTrContext.accountNumber = incoming.accountNumber := by
    intro prepared hprepared
    rw [Memory.readUint, storePrepared_read hprepared _ (by decide)]
    exact h.accountNumber
  have hall : Alike (fun value prepared => value = .transactionSignature incoming.accountNumber
      prepared.toSign) (incoming.offer sdk) (prepareTransaction sdk locals device) := by
    simp only [Incoming.offer, prepareTransaction]
    rw [h.loadMany_eq, ok_bind]
    apply Alike.step
    intro src _
    rw [← bind_pure (prepareToSign ..)]
    apply (hprepare src).bind
    intro a b hsame
    exact .ok (by rw [hsame.toSign])
  rw [← bind_pure (incoming.offer sdk)]
  apply hall.with_ok.bind
  rintro value prepared ⟨rfl, -, hprepared⟩
  refine .ok ⟨?_, rfl⟩
  simp only [Option.map_some]
  rw [haccount prepared hprepared]

/-! Steps. -/

/-- What the wallet admits leaves the fields of a waiting screen alone. -/
theorem Implements.leavesPending {device : Device} {wallet : Wallet} (h : Implements device wallet)
    {request : Request} (hadmits : wallet.admits request = true) (hwaits : device.screen ≠ none) :
    LeavesPending request := by
  cases wallet with
  | waiting value =>
    cases request with
    | signTransaction cdata isFirstChunk more =>
      cases isFirstChunk with
      | false => cases hadmits
      | true =>
        cases more with
        | false => exact fun hboth => Bool.false_ne_true hboth.2
        | true => cases hadmits
    | getPublicKey cdata display => exact hadmits
    | getAddress cdata display => exact hadmits
    | _ => trivial
  | _ =>
    have hnone := h.offered
    rw [Wallet.offered, Option.map_eq_none_iff] at hnone
    exact absurd hnone hwaits

/-- Without a confirmation the wallet has nothing on offer. -/
theorem Implements.no_screen {device : Device} {wallet : Wallet} (h : Implements device wallet)
    {request : Request} (hadmits : wallet.admits request = true) (hrequest : ¬ LeavesPending request) :
    device.screen = none := by
  by_contra hwaits
  exact hrequest (h.leavesPending hadmits hwaits)

/-- GET_ADDRESS finds no leftovers that matter. -/
def AsksCleanly (device : Device) : Request → Prop
  | .getAddress _ _ => Harmless device.bocContext
  | _ => True

/-- The handlers do what the wallet does. -/
theorem handle_implements (sdk : Sdk) (locals : Locals) {device : Device} {wallet : Wallet}
    (h : Implements device wallet) {request : Request} (hadmits : wallet.admits request = true)
    (hclean : AsksCleanly device request) :
    Alike (fun result result' => Implements result'.1 result.1 ∧ result'.2 = result.2)
      (wallet.handle sdk request) (handle sdk locals request device) := by
  cases request with
  | getAppConfiguration => exact .ok ⟨h, rfl⟩
  | refused error => exact .ok ⟨h, rfl⟩
  | getPublicKey cdata display =>
    apply Alike.step
    intro accountNumber _
    cases getPublicKey sdk accountNumber with
    | none => exact .ok ⟨h, rfl⟩
    | some publicKey =>
      cases display with
      | true => exact .ok ⟨⟨rfl, nofun⟩, rfl⟩
      | false =>
        have hscreen := h.no_screen hadmits Bool.false_ne_true
        have hreply : (device.dataContext.write DataContext.pkContext.publicKey.offset
            publicKey.toList).read DataContext.pkContext.publicKey = publicKey.toList :=
          Memory.read_write_self _ Vector.length_toList
        refine .ok ⟨⟨?_, nofun⟩, ?_⟩
        · exact congrArg (Option.map Screen.computed) hscreen
        · exact congrArg (fun key => some (Reply.mk (UInt8.ofNat publicKeyLength :: key) success))
            hreply
  | getAddress cdata display =>
    apply Alike.step
    intro accountNumber _
    apply Alike.step
    intro walletType _
    apply (walletAddress_alike sdk accountNumber walletType hclean device.dataContext).bind
    rintro _ ⟨address, bc, dc⟩ rfl
    cases display with
    | true => exact .ok ⟨⟨rfl, nofun⟩, rfl⟩
    | false =>
      have hscreen := h.no_screen hadmits Bool.false_ne_true
      have hreply : (dc.write DataContext.addrContext.address.offset address.toList).read
          DataContext.addrContext.address = address.toList :=
        Memory.read_write_self _ Vector.length_toList
      refine .ok ⟨⟨?_, nofun⟩, ?_⟩
      · exact congrArg (Option.map Screen.computed) hscreen
      · exact congrArg (fun key => some (Reply.mk (UInt8.ofNat addressLength :: key) success))
          hreply
  | sign cdata =>
    apply Alike.step
    intro _ _
    apply Alike.step
    intro accountNumber _
    apply Alike.step
    intro _ _
    apply Alike.step
    intro message _
    exact .ok ⟨⟨rfl, nofun⟩, rfl⟩
  | signTransaction cdata isFirstChunk more =>
    apply (receiveChunk_implements sdk h hadmits).with_ok.bind
    rintro incoming held ⟨⟨hheld, hbc, hscreen⟩, hreceive, -⟩
    cases more with
    | true =>
      have hnone : device.screen = none := by
        cases isFirstChunk with
        | true => exact h.no_screen hadmits fun hleaves => hleaves ⟨rfl, rfl⟩
        | false =>
          cases wallet with
          | receiving incoming => exact Option.map_eq_none_iff.mp h.offered
          | idle => cases hadmits
          | waiting value => cases hadmits
      refine .ok ⟨⟨by rw [hscreen, hnone]; rfl, ?_⟩, rfl⟩
      rintro _ ⟨⟩
      exact ⟨hheld, hbc⟩
    | false =>
      rw [← bind_pure (finishTransaction ..)]
      apply (finishTransaction_implements sdk locals hheld hbc).bind
      rintro value result ⟨hoffered, hreply⟩
      exact .ok ⟨⟨hoffered, nofun⟩, hreply⟩

/-- GET_ADDRESS is sent in states without leftovers that matter. -/
def AddressesClean (device : Device) : Event → Prop
  | .command cmd _ => AsksCleanly device cmd.request
  | .answer _ => True

theorem implements_idle {device : Device} (h : device.screen = none) : Implements device .idle where
  offered := by rw [h]; rfl
  received _ hreceiving := by cases hreceiving

theorem faithful_of_no_screen {device : Device} (h : device.screen = none) : Faithful device := by
  intro screen hscreen
  rw [h] at hscreen
  cases hscreen

theorem initial_implements : Implements .initial .idle ∧ Faithful .initial :=
  ⟨implements_idle rfl, faithful_of_no_screen rfl⟩

/-- A step of the wallet is a step of the device. -/
theorem step_implements (sdk : Sdk) {device : Device} {wallet next : Wallet} {event : Event}
    {effect : Effect} (h : Implements device wallet ∧ Faithful device)
    (hclean : AddressesClean device event)
    (hstep : wallet.step sdk event = some (next, effect)) :
    ∃ device', step sdk device event = some (device', effect) ∧
      Implements device' next ∧ Faithful device' := by
  obtain ⟨himplements, hfaithful⟩ := h
  cases Wallet.step_ok hstep with
  | @handled cmd next reply locals hadmits hspec =>
    have halike := handle_implements sdk locals himplements hadmits hclean
    rw [hspec] at halike
    cases hhandle : handle sdk locals cmd.request device with
    | ok result =>
      rw [hhandle] at halike
      cases halike with
      | ok hboth =>
        refine ⟨result.1, ?_, hboth.1, ?_⟩
        · simp only [step, hhandle, hboth.2]
        · exact (handle_ok hhandle).faithful hfaithful (himplements.leavesPending hadmits)
    | error abort =>
      rw [hhandle] at halike
      cases halike
  | @ended cmd error locals hadmits hspec =>
    have halike := handle_implements sdk locals himplements hadmits hclean
    rw [hspec] at halike
    cases hhandle : handle sdk locals cmd.request device with
    | ok result =>
      rw [hhandle] at halike
      cases halike
    | error abort =>
      rw [hhandle] at halike
      cases halike
      refine ⟨.initial, ?_, initial_implements⟩
      simp only [step, hhandle]
  | approved offers =>
    subst offers
    obtain ⟨screen, hscreen, rfl⟩ := Option.map_eq_some_iff.mp himplements.offered
    exact ⟨_, hfaithful.approved hscreen, implements_idle rfl, faithful_of_no_screen rfl⟩
  | rejected offers =>
    subst offers
    obtain ⟨screen, hscreen, rfl⟩ := Option.map_eq_some_iff.mp himplements.offered
    refine ⟨{ device with screen := none }, ?_, implements_idle rfl, faithful_of_no_screen rfl⟩
    simp only [step, hscreen]
    rfl

theorem walletTrace_implemented (sdk : Sdk) {trace : List (Event × Effect)} {wallet : Wallet}
    (h : Trace (Wallet.step sdk) .idle trace wallet)
    (hclean : FitsAlong (step sdk) AddressesClean .initial (trace.map Prod.fst)) :
    ∃ device, Trace (step sdk) .initial trace device ∧ Implements device wallet := by
  have hstep : ∀ device wallet event next effect, Implements device wallet ∧ Faithful device →
      AddressesClean device event → wallet.step sdk event = some (next, effect) →
        ∃ device', step sdk device event = some (device', effect) ∧
          Implements device' next ∧ Faithful device' :=
    fun _ _ _ _ _ hrelated hclean hstep => step_implements sdk hrelated hclean hstep
  obtain ⟨device, hrun, himplements, -⟩ := Trace.implemented hstep initial_implements h hclean
  exact ⟨device, hrun, himplements⟩

/-- Along every run of the wallet in which addresses are asked for without leftovers, the
device takes the same events, and gives the same replies and calls the signer in the same
way; no other run of the device has these events. -/
theorem device_implements_wallet (sdk : Sdk) {trace : List (Event × Effect)} {wallet : Wallet}
    (h : Trace (Wallet.step sdk) .idle trace wallet)
    (hclean : FitsAlong (step sdk) AddressesClean .initial (trace.map Prod.fst)) :
    ∃ device, Trace (step sdk) .initial trace device ∧ Implements device wallet ∧
      ∀ trace' device', Trace (step sdk) .initial trace' device' →
        trace'.map Prod.fst = trace.map Prod.fst → trace' = trace ∧ device' = device := by
  obtain ⟨device, hrun, himplements⟩ := walletTrace_implemented sdk h hclean
  exact ⟨device, hrun, himplements, fun trace' device' hrun' hevents =>
    hrun'.unique hrun hevents⟩

/-- An address that is shown and approved, and then a transfer. -/
def addressThenTransfer : List Event :=
  [.command (addressCommand 2) zeroLocals, .answer true, .command transferCommand zeroLocals,
    .answer true]

theorem addressThenTransfer_clean :
    FitsAlong (step testSdk) AddressesClean .initial addressThenTransfer := by
  intro earlier event later state hevents hrun
  cases earlier with
  | nil =>
    obtain ⟨rfl, -⟩ := List.cons.inj hevents
    obtain rfl := hrun.unique .nil
    exact harmless_zero
  | cons first earlier =>
    have hmem : event ∈ [Event.answer true, .command transferCommand zeroLocals, .answer true] := by
      rw [(List.cons.inj hevents).2]
      exact List.mem_append_right _ List.mem_cons_self
    simp only [List.mem_cons, List.not_mem_nil, or_false] at hmem
    obtain rfl | rfl | rfl := hmem
    · trivial
    · change AsksCleanly state transferCommand.request
      rw [transferCommand_request]
      trivial
    · trivial

theorem device_implements_wallet_transfer : ∃ (trace : List (Event × Effect)) (wallet : Wallet),
    trace.map Prod.fst = addressThenTransfer ∧ Trace (Wallet.step testSdk) .idle trace wallet ∧
    ∃ device, Trace (step testSdk) .initial trace device ∧ Implements device wallet := by
  obtain ⟨wallet, hrun, -⟩ : ∃ wallet, Run (Wallet.step testSdk) .idle addressThenTransfer wallet ∧
      True := exists_run (by decide +kernel)
  obtain ⟨trace, htrace, hevents⟩ := hrun.trace
  obtain ⟨device, hdevice, himplements, -⟩ :=
    device_implements_wallet testSdk htrace (hevents ▸ addressThenTransfer_clean)
  exact ⟨trace, wallet, hevents, htrace, device, hdevice, himplements⟩

end EverscaleLedger.Properties
