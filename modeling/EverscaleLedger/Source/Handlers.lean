import EverscaleLedger.Source.Message

/-! The command handlers, the replies and the answers to screens: `handler/*.c`,
`helper/send_response.c` and `ui/action/validate.c`. -/
namespace EverscaleLedger.Source

open Library (Field Memory)

structure Reply where
  data : List UInt8
  sw : Nat
deriving DecidableEq

def ioSendSw (sw : Nat) : Reply := ⟨[], sw⟩

/-- What an approval gives out. A signature is identified by the account that
signs and the bytes handed to the signer. -/
inductive Released where
  | publicKey (key : List UInt8)
  | address (address : List UInt8)
  | messageSignature (accountNumber : Nat) (message : List UInt8)
  | transactionSignature (accountNumber : Nat) (message : List UInt8)
deriving DecidableEq

inductive Callback where
  | validatePubkey
  | validateAddress
  | validateMessage
  | validateTransaction
deriving DecidableEq

/-- A screen that waits for an answer. `text` is what it shows, and `computed` is
a history variable: what the command had computed when it put the screen up.
No handler reads either of them. -/
structure Screen where
  callback : Callback
  text : List (List UInt8)
  computed : Released

/-- The two global contexts, and the screen that waits for an answer. -/
structure Device where
  bocContext : BocContext
  dataContext : DataContext
  screen : Option Screen

namespace Device

/-- The start of `app_main`. -/
def initial : Device := ⟨BocContext.zero, Memory.zero, none⟩

def resetAppContext (device : Device) : Device :=
  { device with bocContext := BocContext.zero, dataContext := Memory.zero }

end Device

/-- The characters of a field up to the terminator. -/
def cString (bytes : List UInt8) : List UInt8 := bytes.takeWhile (· ≠ 0)

def helperSendResponsePublicKey (device : Device) : Device × Reply :=
  (device.resetAppContext, ⟨UInt8.ofNat publicKeyLength ::
    device.dataContext.read DataContext.pkContext.publicKey, success⟩)

def helperSendResponseAddress (device : Device) : Device × Reply :=
  (device.resetAppContext, ⟨UInt8.ofNat addressLength ::
    device.dataContext.read DataContext.addrContext.address, success⟩)

def helperSendResponseSign (device : Device) : Device × Reply :=
  (device, ⟨UInt8.ofNat signatureLength ::
    device.dataContext.read DataContext.signContext.signature, success⟩)

def helperSendResponseSignTransaction (device : Device) : Device × Reply :=
  (device, ⟨UInt8.ofNat signatureLength ::
    device.dataContext.read DataContext.signTrContext.signature, success⟩)

/-- `MAJOR_VERSION`, `MINOR_VERSION` and `PATCH_VERSION` of the build. -/
def appVersion : List UInt8 := [1, 1, 6]

def handleGetAppConfiguration (device : Device) : Outcome (Device × Option Reply) :=
  pure (device, some ⟨appVersion, success⟩)

/-- `read_u32_be(cdata->ptr, offset)` -/
def readU32BE (cdata : List UInt8) (offset : Nat) : Outcome Nat := do
  let bytes ← loadMany (cdata.drop offset) 4
  pure (readUintBE bytes)

def handleGetPublicKey (sdk : Sdk) (cdata : List UInt8) (display : Bool) (device : Device) :
    Outcome (Device × Option Reply) := do
  let accountNumber ← readU32BE cdata 0
  match getPublicKey sdk accountNumber with
  | none => pure (device, some (ioSendSw Err.getPublicKeyFailed.statusWord))
  | some publicKey =>
      let dc := device.dataContext.write DataContext.pkContext.publicKey.offset publicKey.toList
      if display then
        let publicKeyStr := sdk.formatHex publicKey.toList
        let dc := dc.write DataContext.pkContext.publicKeyStr.offset (publicKeyStr ++ [0])
        let screen : Screen :=
          ⟨.validatePubkey, [publicKeyStr], .publicKey publicKey.toList⟩
        pure ({ device with dataContext := dc, screen := some screen }, none)
      else
        let (device, reply) := helperSendResponsePublicKey { device with dataContext := dc }
        pure (device, some reply)

def handleGetAddress (sdk : Sdk) (cdata : List UInt8) (display : Bool) (device : Device) :
    Outcome (Device × Option Reply) := do
  let accountNumber ← readU32BE cdata 0
  let walletType ← load cdata 4
  let (address, bc, dc) ←
    getAddress sdk accountNumber walletType device.bocContext device.dataContext
  let dc := dc.write DataContext.addrContext.address.offset address.toList
  if display then
    let addressStr := sdk.formatHex address.toList
    let dc := dc.write DataContext.addrContext.addressStr.offset (addressStr ++ [0])
    let screen : Screen := ⟨.validateAddress, [addressStr], .address address.toList⟩
    pure (⟨bc, dc, some screen⟩, none)
  else
    let (device, reply) := helperSendResponseAddress ⟨bc, dc, device.screen⟩
    pure (device, some reply)

def signMagic : List UInt8 := [0xFF, 0xFF, 0xFF, 0xFF]

def handleSign (sdk : Sdk) (cdata : List UInt8) (device : Device) :
    Outcome (Device × Option Reply) := do
  validate (cdata.length ≥ 4) .invalidRequest
  let accountNumber ← readU32BE cdata 0
  validate (cdata.length ≥ 4 + toSignLength) .invalidRequest
  let message ← loadMany (cdata.drop 4) toSignLength
  let toSign := signMagic ++ message
  let toSignStr := sdk.formatHex toSign
  let dc := device.dataContext.writeUint DataContext.signContext.accountNumber accountNumber
  let dc := dc.write DataContext.signContext.toSign.offset toSign
  let dc := dc.write DataContext.signContext.toSignStr.offset (toSignStr ++ [0])
  let screen : Screen :=
    ⟨.validateMessage, [toSignStr], .messageSignature accountNumber toSign⟩
  pure ({ device with dataContext := dc, screen := some screen }, none)

/-- Read `count` bytes at the cursor of `cdata`, checked against its size. -/
def takeField (cdata : List UInt8) (offset count : Nat) : Outcome (List UInt8 × Nat) := do
  validate (cdata.length ≥ offset + count) .invalidRequest
  let bytes ← loadMany (cdata.drop offset) count
  pure (bytes, offset + count)

/-- A field that the metadata byte announces, or its default. -/
def takeIfPresent (cdata : List UInt8) (offset count : Nat) (present : Prop) [Decidable present]
    (default : List UInt8) : Outcome (List UInt8 × Nat) :=
  if present then takeField cdata offset count else pure (default, offset)

/-- The header of a first chunk, read into a context that was reset. The result
has the position of the payload. -/
def readFirstChunk (sdk : Sdk) (cdata : List UInt8) (bc : BocContext) (dc : DataContext) :
    Outcome (Nat × BocContext × DataContext) := do
  let (bytes, offset) ← takeField cdata 0 4
  let accountNumber := readUintBE bytes
  let dc := dc.writeUint DataContext.signTrContext.accountNumber accountNumber
  let (originWalletType, offset) ← takeField cdata offset 1
  let dc := dc.write DataContext.signTrContext.originWalletType.offset originWalletType
  let (decimals, offset) ← takeField cdata offset 1
  let dc := dc.write DataContext.signTrContext.decimals.offset decimals
  let (tickerLen, offset) ← takeField cdata offset 1
  let tickerLen := (tickerLen.headD 0).toNat
  validate (tickerLen ≠ 0 ∧ tickerLen ≤ maxTickerLen) .tickerLength
  let (ticker, offset) ← takeField cdata offset tickerLen
  let dc := dc.write DataContext.signTrContext.ticker.offset ticker
  let (metadata, offset) ← takeField cdata offset 1
  let metadata := (metadata.headD 0).toNat
  -- Read wallet type if present
  let (currentWalletType, offset) ←
    takeIfPresent cdata offset 1 (metadata &&& flagWithWalletId ≠ 0) originWalletType
  let dc := dc.write DataContext.signTrContext.currentWalletType.offset currentWalletType
  -- Get address: the key derivation writes through another member of the union.
  let (address, _, dc) ← getAddress sdk accountNumber (originWalletType.headD 0) bc dc
  let dc := dc.write DataContext.signTrContext.address.offset address.toList
  let bc := BocContext.zero
  -- Read wc if present
  let (wc, offset) ← takeIfPresent cdata offset 1 (metadata &&& flagWithWorkchainId ≠ 0) [0]
  let dc := dc.write DataContext.signTrContext.wc.offset wc
  -- Read initial address if present
  let (prependAddress, offset) ←
    takeIfPresent cdata offset addressLength (metadata &&& flagWithAddress ≠ 0) address.toList
  let dc := dc.write DataContext.signTrContext.prependAddress.offset prependAddress
  -- Read chain id if present
  if metadata &&& flagWithChainId ≠ 0 then do
    let dc := dc.write DataContext.signTrContext.signWithChainId.offset [1]
    let (chainId, offset) ← takeField cdata offset chainIdLength
    let dc := dc.write DataContext.signTrContext.chainId.offset chainId
    pure (offset, bc, dc)
  else
    let dc := dc.write DataContext.signTrContext.signWithChainId.offset [0]
    pure (offset, bc, dc)

/-- Append the payload of a chunk to the buffered data. -/
def appendPayload (payload : List UInt8) (dc : DataContext) : Outcome DataContext :=
  if payload.length > 0 then do
    let dataOffset := dc.readUint DataContext.signTrContext.dataOffset
    validate (dataOffset + payload.length < maxDataLen) .invalidData
    let dc := dc.write (DataContext.signTrContext.data.offset + dataOffset) payload
    pure (dc.writeUint DataContext.signTrContext.dataOffset (dataOffset + payload.length))
  else pure dc

/-- `handleSignTransaction` up to the question whether more chunks follow. -/
def receiveChunk (sdk : Sdk) (cdata : List UInt8) (isFirstChunk : Bool) (device : Device) :
    Outcome Device := do
  let device := if isFirstChunk then device.resetAppContext else device
  let (offset, bc, dc) ←
    (if isFirstChunk then readFirstChunk sdk cdata device.bocContext device.dataContext
    else pure (0, device.bocContext, device.dataContext))
  let dc ← appendPayload (cdata.drop offset) dc
  pure { device with bocContext := bc, dataContext := dc }

/-- The fields of `sign_tr_context` that `prepare_to_sign` reads. -/
def SignTransactionContext.ofData (dc : DataContext) : SignTransactionContext where
  signWithChainId := dc DataContext.signTrContext.signWithChainId.offset ≠ 0
  chainId := dc.read DataContext.signTrContext.chainId
  currentWalletType := dc DataContext.signTrContext.currentWalletType.offset
  decimals := (dc DataContext.signTrContext.decimals.offset).toNat
  ticker := dc.read DataContext.signTrContext.ticker

def writeIfSome (dc : DataContext) (field : Field) : Option (List UInt8) → DataContext
  | some bytes => dc.write field.offset bytes
  | none => dc

/-- What `prepare_to_sign` writes to `sign_tr_context`. -/
def storePrepared (dc : DataContext) (prepared : Prepared) : DataContext :=
  let display := prepared.decoded.display
  let dc := writeIfSome dc DataContext.signTrContext.addressStr display.addressStr
  let dc := writeIfSome dc DataContext.signTrContext.amountStr display.amountStr
  let dc := writeIfSome dc DataContext.signTrContext.transactionIdStr display.transactionIdStr
  dc.write DataContext.signTrContext.toSign.offset prepared.toSign

/-- The string at a field of the union, up to its terminator. Nothing stops it at
the end of the field. -/
def textAt (dc : DataContext) (field : Field) : List UInt8 :=
  cString (dc.read ⟨field.offset, dataContextSize - field.offset⟩)

/-- The strings of `ui_display_sign_transaction`. -/
def transactionText (flow : Flow) (dc : DataContext) : List (List UInt8) :=
  let amount := textAt dc DataContext.signTrContext.amountStr
  let address := textAt dc DataContext.signTrContext.addressStr
  let transactionId := textAt dc DataContext.signTrContext.transactionIdStr
  match flow with
  | .transfer => [amount, address]
  | .deploy => [address]
  | .confirm => [transactionId]
  | .burn => [amount]

/-- The call of `prepare_to_sign` on the buffered data. -/
def prepareTransaction (sdk : Sdk) (locals : Locals) (device : Device) : Outcome Prepared := do
  let dc := device.dataContext
  let data ← loadMany (dc.read DataContext.signTrContext.data)
    (dc.readUint DataContext.signTrContext.dataOffset)
  let src ← ByteStream.init data
  prepareToSign sdk locals (SignTransactionContext.ofData dc) device.bocContext src
    (dc DataContext.signTrContext.wc.offset)
    (dc.read DataContext.signTrContext.address)
    (dc.read DataContext.signTrContext.prependAddress)

def finishTransaction (sdk : Sdk) (locals : Locals) (device : Device) :
    Outcome (Device × Option Reply) := do
  let prepared ← prepareTransaction sdk locals device
  let dc := storePrepared device.dataContext prepared
  let accountNumber := dc.readUint DataContext.signTrContext.accountNumber
  let screen : Screen := ⟨.validateTransaction, transactionText prepared.decoded.flow dc,
    .transactionSignature accountNumber prepared.toSign⟩
  pure (⟨prepared.bc, dc, some screen⟩, none)

def handleSignTransaction (sdk : Sdk) (locals : Locals) (cdata : List UInt8)
    (isFirstChunk more : Bool) (device : Device) : Outcome (Device × Option Reply) := do
  let device ← receiveChunk sdk cdata isFirstChunk device
  if more then pure (device, some (ioSendSw success))
  else finishTransaction sdk locals device

/-- A call of the Ed25519 signer. -/
structure SignerCall where
  key : PrivateKey
  message : List UInt8
deriving DecidableEq

/-- What a step makes visible: the reply, and the call of the signer. -/
structure Effect where
  reply : Option Reply
  signer : Option SignerCall

/-- `crypto_sign_message` and `crypto_sign_transaction` differ in where they take
the account and the message from and in where they put the signature. -/
def cryptoSign (sdk : Sdk) (accountNumber : Nat) (message : List UInt8) (signature : Field)
    (device : Device) (respond : Device → Device × Reply) : Device × Effect :=
  match getPrivateKey sdk accountNumber with
  | none => (device, ⟨some (ioSendSw Err.signingFailed.statusWord), none⟩)
  | some key =>
      match sdk.eddsaSign key message with
      | none => (device, ⟨some (ioSendSw Err.signingFailed.statusWord), some ⟨key, message⟩⟩)
      | some signed =>
          let (device, reply) := respond
            { device with dataContext := device.dataContext.write signature.offset signed.toList }
          (device, ⟨some reply, some ⟨key, message⟩⟩)

/-- The bytes of `to_sign` that `crypto_sign_transaction` hands to the signer. -/
def transactionMessage (dc : DataContext) : List UInt8 :=
  let toSign := dc.read DataContext.signTrContext.toSign
  if dc DataContext.signTrContext.signWithChainId.offset = 0 then toSign.take toSignLength
  else toSign

/-- `validate_pubkey`, `validate_address`, `validate_message` and
`validate_transaction`, on approval. -/
def approve (sdk : Sdk) (callback : Callback) (device : Device) : Device × Effect :=
  let dc := device.dataContext
  match callback with
  | .validatePubkey =>
      let (device, reply) := helperSendResponsePublicKey device
      (device, ⟨some reply, none⟩)
  | .validateAddress =>
      let (device, reply) := helperSendResponseAddress device
      (device, ⟨some reply, none⟩)
  | .validateMessage =>
      cryptoSign sdk (dc.readUint DataContext.signContext.accountNumber)
        (dc.read DataContext.signContext.toSign) DataContext.signContext.signature
        device helperSendResponseSign
  | .validateTransaction =>
      cryptoSign sdk (dc.readUint DataContext.signTrContext.accountNumber)
        (transactionMessage dc) DataContext.signTrContext.signature
        device helperSendResponseSignTransaction

end EverscaleLedger.Source
