import EverscaleLedger.Properties.Approval
import EverscaleLedger.Properties.StateInit

/-! What the application is for, without its memory: a wallet that takes one request at a
time and gives out what was asked for, after an approval where one is due. Nothing in it
outlives the request that it belongs to. -/
namespace EverscaleLedger.Properties

open Library Source

/-- The hash of the `StateInit` of a wallet. Every wallet type has a data tree. -/
def stateInitHash (sdk : Sdk) (publicKey : Hash) (type : WalletType) : Hash :=
  match walletData publicKey type with
  | some data => ((stateInit (codeDigest type) data).digest sdk.sha256).hash
  | none => zeroHash

def walletAddress (sdk : Sdk) (accountNumber : Nat) (walletType : UInt8) : Outcome Hash :=
  match WalletType.ofByte walletType with
  | none => .error (.thrown .invalidWalletType)
  | some type =>
      match getPublicKey sdk accountNumber with
      | none => .error (.thrown .getPublicKeyFailed)
      | some publicKey => pure (stateInitHash sdk publicKey type)

/-- A transaction that is being sent: what its header says, and the payload so far. -/
structure Incoming where
  accountNumber : Nat
  request : SigningRequest
  payload : List UInt8

namespace Incoming

/-- The payload of one more chunk. -/
def extend (incoming : Incoming) (payload : List UInt8) : Outcome Incoming :=
  if payload.length > 0 then do
    validate (incoming.payload.length + payload.length < maxDataLen) .invalidData
    pure { incoming with payload := incoming.payload ++ payload }
  else pure incoming

/-- The fields of the header of a first chunk, and the position of the payload. -/
def header (sdk : Sdk) (cdata : List UInt8) : Outcome (Incoming × Nat) := do
  let (bytes, offset) ← takeField cdata 0 4
  let accountNumber := readUintBE bytes
  let (originWalletType, offset) ← takeField cdata offset 1
  let (decimals, offset) ← takeField cdata offset 1
  let (tickerLen, offset) ← takeField cdata offset 1
  let tickerLen := (tickerLen.headD 0).toNat
  validate (tickerLen ≠ 0 ∧ tickerLen ≤ maxTickerLen) .tickerLength
  let (ticker, offset) ← takeField cdata offset tickerLen
  let (metadata, offset) ← takeField cdata offset 1
  let metadata := (metadata.headD 0).toNat
  let (currentWalletType, offset) ←
    takeIfPresent cdata offset 1 (metadata &&& flagWithWalletId ≠ 0) originWalletType
  let address ← walletAddress sdk accountNumber (originWalletType.headD 0)
  let (wc, offset) ← takeIfPresent cdata offset 1 (metadata &&& flagWithWorkchainId ≠ 0) [0]
  let (prependAddress, offset) ←
    takeIfPresent cdata offset addressLength (metadata &&& flagWithAddress ≠ 0) address.toList
  let (chainId, offset) ←
    takeIfPresent cdata offset chainIdLength (metadata &&& flagWithChainId ≠ 0) []
  let ctx : SignTransactionContext :=
    { signWithChainId := metadata &&& flagWithChainId ≠ 0
      chainId := chainId
      currentWalletType := currentWalletType.headD 0
      decimals := (decimals.headD 0).toNat
      ticker := ticker ++ List.replicate (maxTickerLen - tickerLen) 0 }
  pure (⟨accountNumber, ⟨ctx, wc.headD 0, address.toList, prependAddress⟩, []⟩, offset)

def first (sdk : Sdk) (cdata : List UInt8) : Outcome Incoming := do
  let (incoming, offset) ← header sdk cdata
  incoming.extend (cdata.drop offset)

/-- What is offered for approval when the last chunk is there. No local buffer and no
earlier command has a part in it. -/
def offer (sdk : Sdk) (incoming : Incoming) : Outcome Released := do
  let src ← ByteStream.init incoming.payload
  let prepared ← incoming.request.prepare sdk zeroLocals BocContext.zero src
  pure (.transactionSignature incoming.accountNumber prepared.toSign)

end Incoming

/-- The wallet between two events. -/
inductive Wallet where
  | idle
  | receiving (incoming : Incoming)
  | waiting (offered : Released)

namespace Wallet

def offered : Wallet → Option Released
  | waiting value => some value
  | idle | receiving _ => none

/-- What a client may send: a further chunk while a transaction is being received, and
nothing that would take the place of a waiting offer without one of its own. -/
def admits : Wallet → Request → Bool
  | receiving _, _ => true
  | _, .signTransaction _ false _ => false
  | idle, _ => true
  | waiting _, .getPublicKey _ display => display
  | waiting _, .getAddress _ display => display
  | waiting _, .signTransaction _ true more => !more
  | waiting _, _ => true

/-- A value is offered, or given out at once. -/
def deliver (sdk : Sdk) (value : Released) (display : Bool) : Wallet × Option Reply :=
  if display then (waiting value, none) else (idle, (releasedEffect sdk value).reply)

def receive (sdk : Sdk) (wallet : Wallet) (cdata : List UInt8) (isFirstChunk : Bool) :
    Outcome Incoming :=
  if isFirstChunk then Incoming.first sdk cdata
  else match wallet with
  | receiving incoming => incoming.extend cdata
  | idle | waiting _ => .error .fault

def handle (sdk : Sdk) (wallet : Wallet) : Request → Outcome (Wallet × Option Reply)
  | .getAppConfiguration => pure (wallet, some ⟨appVersion, success⟩)
  | .refused error => pure (wallet, some (ioSendSw error.statusWord))
  | .getPublicKey cdata display => do
      let accountNumber ← readU32BE cdata 0
      match getPublicKey sdk accountNumber with
      | none => pure (wallet, some (ioSendSw Err.getPublicKeyFailed.statusWord))
      | some publicKey => pure (deliver sdk (.publicKey publicKey.toList) display)
  | .getAddress cdata display => do
      let accountNumber ← readU32BE cdata 0
      let walletType ← load cdata 4
      let address ← walletAddress sdk accountNumber walletType
      pure (deliver sdk (.address address.toList) display)
  | .sign cdata => do
      validate (cdata.length ≥ 4) .invalidRequest
      let accountNumber ← readU32BE cdata 0
      validate (cdata.length ≥ 4 + toSignLength) .invalidRequest
      let message ← loadMany (cdata.drop 4) toSignLength
      pure (waiting (.messageSignature accountNumber (signMagic ++ message)), none)
  | .signTransaction cdata isFirstChunk more => do
      let incoming ← wallet.receive sdk cdata isFirstChunk
      if more then pure (receiving incoming, some (ioSendSw success))
      else do
        let value ← incoming.offer sdk
        pure (waiting value, none)

/-- An error ends the request at hand. -/
def step (sdk : Sdk) (wallet : Wallet) : Event → Option (Wallet × Effect)
  | .command cmd _ =>
      if wallet.admits cmd.request then
        match wallet.handle sdk cmd.request with
        | .ok (next, reply) => some (next, ⟨reply, none⟩)
        | .error (.thrown error) => some (idle, ⟨some (ioSendSw error.statusWord), none⟩)
        | .error .fault => none
      else none
  | .answer choice =>
      match wallet with
      | waiting value =>
          if choice then some (idle, releasedEffect sdk value)
          else some (idle, ⟨some (ioSendSw Err.userRejected.statusWord), none⟩)
      | idle | receiving _ => none

/-- What a step of the wallet can be. -/
inductive Stepped (sdk : Sdk) (wallet : Wallet) : Event → Wallet → Effect → Prop where
  | handled {cmd : Command} {next : Wallet} {reply : Option Reply} (locals : Locals)
      (admitted : wallet.admits cmd.request = true)
      (handled : wallet.handle sdk cmd.request = .ok (next, reply)) :
      Stepped sdk wallet (.command cmd locals) next ⟨reply, none⟩
  | ended {cmd : Command} {error : Err} (locals : Locals)
      (admitted : wallet.admits cmd.request = true)
      (thrown : wallet.handle sdk cmd.request = .error (.thrown error)) :
      Stepped sdk wallet (.command cmd locals) idle ⟨some (ioSendSw error.statusWord), none⟩
  | approved {value : Released} (offers : wallet = waiting value) :
      Stepped sdk wallet (.answer true) idle (releasedEffect sdk value)
  | rejected {value : Released} (offers : wallet = waiting value) :
      Stepped sdk wallet (.answer false) idle ⟨some (ioSendSw Err.userRejected.statusWord), none⟩

theorem step_ok {sdk : Sdk} {wallet next : Wallet} {event : Event} {effect : Effect}
    (h : wallet.step sdk event = some (next, effect)) : wallet.Stepped sdk event next effect := by
  cases event with
  | command cmd locals =>
    simp only [step] at h
    split at h
    next hadmits =>
      split at h
      next hhandle =>
        obtain ⟨rfl, rfl⟩ := Prod.mk.inj (Option.some.inj h)
        exact .handled locals hadmits hhandle
      next hhandle =>
        obtain ⟨rfl, rfl⟩ := Prod.mk.inj (Option.some.inj h)
        exact .ended locals hadmits hhandle
      next => cases h
    next => cases h
  | answer choice =>
    cases wallet with
    | waiting value =>
      cases choice with
      | true =>
        obtain ⟨rfl, rfl⟩ := Prod.mk.inj (Option.some.inj h)
        exact .approved rfl
      | false =>
        obtain ⟨rfl, rfl⟩ := Prod.mk.inj (Option.some.inj h)
        exact .rejected rfl
    | idle => cases h
    | receiving incoming => cases h

end Wallet

end EverscaleLedger.Properties
