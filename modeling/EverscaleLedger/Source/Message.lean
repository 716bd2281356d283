import EverscaleLedger.Source.Contract

/-! `message.c`: the decoders of messages, and `prepare_to_sign`. -/
namespace EverscaleLedger.Source

def rootCellIndex : Nat := 0
def giftCellIndex : Nat := 1

/-- The screens that `ui_display_sign_transaction` knows. The initial value
`SIGN_TRANSACTION_FLOW_ERROR` of the source is overwritten on every path. -/
inductive Flow where
  | transfer
  | deploy
  | confirm
  | burn
deriving DecidableEq

/-- The function ids of contract wallets; two ids share a case of the switch. -/
inductive ContractFunction where
  | deployTransaction
  | sendTransaction
  | submitTransaction
  | confirmTransaction
deriving DecidableEq

def ContractFunction.ofId (functionId : Nat) : Option ContractFunction :=
  if functionId = 1813932348 ∨ functionId = 733015951 then some .deployTransaction
  else if functionId = 1290691692 then some .sendTransaction
  else if functionId = 320701133 ∨ functionId = 1428000117 then some .submitTransaction
  else if functionId = 447168749 then some .confirmTransaction
  else none

inductive TokenFunction where
  | transfer
  | burn
deriving DecidableEq

def TokenFunction.ofId (functionId : Nat) : Option TokenFunction :=
  if functionId = 1944199491 ∨ functionId = 1185535980 then some .transfer
  else if functionId = 1445284013 then some .burn
  else none

def normalFlag : Nat := 3
def allBalanceFlag : Nat := 128
def allBalanceAndDeleteFlag : Nat := 160

/-- The fields of `sign_tr_context` that `prepare_to_sign` reads. -/
structure SignTransactionContext where
  signWithChainId : Bool
  chainId : List UInt8
  currentWalletType : UInt8
  decimals : Nat
  ticker : List UInt8

/-- The strings of `sign_tr_context`, as the bytes written from the start of each
field. `none` is a field that the call has not written. -/
structure Display where
  addressStr : Option (List UInt8)
  amountStr : Option (List UInt8)
  transactionIdStr : Option (List UInt8)
deriving DecidableEq

def Display.untouched : Display := ⟨none, none, none⟩

/-- `d1(1) + d2(1) + data(128)` -/
def cellBufferSize : Nat := 130

/-- What the local buffers hold before anything is written to them. -/
structure Locals where
  srcAddr : Hash
  dstAddress : Hash
  tokenAddress : Hash
  cellBuffer : Vector UInt8 cellBufferSize

/-- `out[index] |= value` -/
def orInto (out : List UInt8) (index value : Nat) : Outcome (List UInt8) := do
  let old ← load out index
  store out index (UInt8.ofNat (old.toNat ||| value))

/-- The reader of `outSize` bytes from a bit offset. It checks bytes against
`inSize`; the caller moves the bit cursor afterwards. -/
def deserializeArray (input : List UInt8) (inSize offset outSize : Nat) :
    Outcome (List UInt8) :=
  let shift := offset % 8
  let firstDataByte := (offset / 8) % 256
  (List.range outSize).foldlM (fun out j => do
    let i := firstDataByte + j
    validate (i + 1 ≤ inSize) .invalidMessage
    let byte ← load input i
    let out ← store out j (UInt8.ofNat (byte.toNat <<< shift))
    let out ← (if j = outSize - 1 ∧ i + 1 < inSize then do
        let next ← load input (i + 1)
        orInto out j (next.toNat >>> (8 - shift))
      else pure out)
    if i ≠ firstDataByte then orInto out (j - 1) (byte.toNat >>> (8 - shift)) else pure out)
    (List.replicate outSize 0)

/-- The workchain and the address are outputs: without an address in the message
they keep what the caller passes in. -/
def deserializeAddress (slice : SliceData) (wc : UInt8) (address : List UInt8) :
    Outcome (SliceData × UInt8 × List UInt8) := do
  let (addrType, slice) ← slice.getNextInt 2
  validate (addrType = 0 ∨ addrType = 2) .invalidMessage
  if addrType = 2 then do
    let (_anycast, slice) ← slice.getNextBit
    let (wc, slice) ← slice.getNextByte
    let address ← deserializeArray slice.data (slice.dataSizeBytes % 256) slice.getCursor
      addressLength
    let slice ← slice.moveBy (addressLength * 8)
    pure (slice, UInt8.ofNat wc, address)
  else pure (slice, wc, address)

def deserializeValue (slice : SliceData) (valueLength : Nat) :
    Outcome (SliceData × List UInt8) := do
  let value ← deserializeArray slice.data (slice.dataSizeBytes % 256) slice.getCursor valueLength
  let slice ← slice.moveBy (valueLength * 8)
  pure (slice, value)

/-- `snprintf(wc_temp, sizeof(wc_temp), "%d:", (int8_t) wc)` -/
def workchainText (wc : UInt8) : List UInt8 :=
  let digits := if wc.toNat < 128 then Nat.toDigits 10 wc.toNat
    else '-' :: Nat.toDigits 10 (256 - wc.toNat)
  ascii (digits ++ [':'])

def setDstAddress (sdk : Sdk) (wc : UInt8) (address : List UInt8) (display : Display) : Display :=
  { display with addressStr := some (workchainText wc ++ sdk.formatHex address ++ [0]) }

def amountStrSize : Nat := 40
def transactionIdStrSize : Nat := 20

/-- `strlen`: without a terminator it runs past the end of the object. -/
def stringLength (text : List UInt8) : Outcome Nat :=
  if 0 ∈ text then .ok (text.takeWhile (· ≠ 0)).length else .error .fault

def allBalanceText : List UInt8 :=
  ascii ['A', 'l', 'l', ' ', 'b', 'a', 'l', 'a', 'n', 'c', 'e']

def allBalanceAndDeleteText : List UInt8 :=
  allBalanceText ++ ascii [' ', 'a', 'n', 'd', ' ', 'd', 'e', 'l', 'e', 't', 'e', ' ',
    'a', 'c', 'c', 'o', 'u', 'n', 't']

def setAmount (amount : List UInt8) (amountLength flags decimals : Nat) (ticker : List UInt8)
    (display : Display) : Outcome Display := do
  let cleared := List.replicate amountStrSize (0 : UInt8)
  if flags = normalFlag then do
    let text ← convertHexAmountToDisplayable amount decimals amountLength amountStrSize
    let tickerLength ← stringLength ticker
    validate (amountStrSize ≥ text.length + 1 + tickerLength) .invalidMessage
    let field ← storeMany cleared 0 (text ++ ascii [' '] ++ ticker.take tickerLength)
    pure { display with amountStr := some field }
  else if flags = allBalanceFlag then do
    validate (amountStrSize ≥ allBalanceText.length) .invalidMessage
    let field ← storeMany cleared 0 allBalanceText
    pure { display with amountStr := some field }
  else if flags = allBalanceAndDeleteFlag then do
    validate (amountStrSize ≥ allBalanceAndDeleteText.length) .invalidMessage
    let field ← storeMany cleared 0 allBalanceAndDeleteText
    pure { display with amountStr := some field }
  else .error (.thrown .invalidFlag)

def setTransactionId (sdk : Sdk) (transactionId : List UInt8) (display : Display) :
    Outcome Display := do
  let cleared := List.replicate transactionIdStrSize (0 : UInt8)
  let field ← storeMany cleared 0 (sdk.formatHex transactionId ++ [0])
  pure { display with transactionIdStr := some field }

def deserializeIntMessageHeader (sdk : Sdk) (locals : Locals) (slice : SliceData) (flags : Nat)
    (ctx : SignTransactionContext) (display : Display) : Outcome (SliceData × Display) := do
  let (intMsg, slice) ← slice.getNextBit
  validate (intMsg = 0) .invalidMessage
  let (_ihrDisabled, slice) ← slice.getNextBit
  let (_bounce, slice) ← slice.getNextBit
  let (_bounced, slice) ← slice.getNextBit
  -- Sender address
  let (slice, _, _) ← deserializeAddress slice 0 locals.srcAddr.toList
  -- Recipient address
  let (slice, dstWc, dstAddress) ← deserializeAddress slice 0 locals.dstAddress.toList
  let display := setDstAddress sdk dstWc dstAddress display
  -- Amount
  let (amountBytes, slice) ← slice.getNextInt 4
  validate (amountBytes ≤ amountLength) .invalidMessage
  let (slice, amount) ← deserializeValue slice amountBytes
  let display ← setAmount amount amountBytes flags ctx.decimals ctx.ticker display
  let (_other, slice) ← slice.getNextBit
  -- Fee
  let (ihrFeeLength, slice) ← slice.getNextInt 4
  validate (ihrFeeLength = 0) .invalidMessage
  let (fwdFeeLength, slice) ← slice.getNextInt 4
  validate (fwdFeeLength = 0) .invalidMessage
  -- Created
  let (_createdLt, slice) ← slice.getNextInt 64
  let (_createdAt, slice) ← slice.getNextInt 32
  pure (slice, display)

/-- The two slices of `deserialize_token_body`. The pointer `slice` starts at the
caller's slice and may be moved to `ref_slice`, never back. -/
structure TokenSource where
  slice : SliceData
  refSlice : Option SliceData
  onRef : Bool

namespace TokenSource

def current (source : TokenSource) : SliceData :=
  if source.onRef then source.refSlice.getD source.slice else source.slice

/-- Write back what a reader returns through the current pointer. -/
def advance (source : TokenSource) (next : SliceData) : TokenSource :=
  if source.onRef then { source with refSlice := some next } else { source with slice := next }

/-- `if (remaining < bits) { VALIDATE(ref_slice, ...); slice = ref_slice; }` -/
def needBits (source : TokenSource) (bits : Nat) : Outcome TokenSource :=
  if source.current.remainingBits < bits then
    match source.refSlice with
    | some _ => .ok { source with onRef := true }
    | none => .error (.thrown .sliceIsEmpty)
  else .ok source

end TokenSource

def deserializeTokenAmount (source : TokenSource) (ctx : SignTransactionContext)
    (display : Display) : Outcome (TokenSource × Display) := do
  let source ← source.needBits (amountLength * 8)
  let (slice, amount) ← deserializeValue source.current amountLength
  let display ← setAmount amount amountLength normalFlag ctx.decimals ctx.ticker display
  pure (source.advance slice, display)

/-- The switch over the function id of a token body. -/
def deserializeTokenFunction (sdk : Sdk) (locals : Locals) (source : TokenSource)
    (functionId : Nat) (ctx : SignTransactionContext) (display : Display) :
    Outcome (Flow × TokenSource × Display) :=
  match TokenFunction.ofId functionId with
  | some .transfer => do
      -- Amount
      let (source, display) ← deserializeTokenAmount source ctx display
      -- Address
      let source ← source.needBits (addressLength * 8)
      let (slice, wc, address) ←
        deserializeAddress source.current 0 locals.tokenAddress.toList
      pure (.transfer, source.advance slice, setDstAddress sdk wc address display)
  | some .burn => do
      -- Amount
      let (source, display) ← deserializeTokenAmount source ctx display
      pure (.burn, source, display)
  | none =>
      -- All other methods could be treated as plain transfers
      pure (.transfer, source, display)

def deserializeTokenBody (sdk : Sdk) (locals : Locals) (source : TokenSource)
    (ctx : SignTransactionContext) (display : Display) :
    Outcome (Flow × TokenSource × Display) := do
  -- FunctionId
  let refBits := match source.refSlice with
    | some refSlice => refSlice.remainingBits
    | none => 0
  if source.slice.remainingBits < 32 ∧ refBits < 32 then
    -- Empty payload is ok
    pure (.transfer, source, display)
  else do
    let source := { source with onRef := decide (source.slice.remainingBits < 32) }
    let (functionId, slice) ← source.current.getNextInt 32
    deserializeTokenFunction sdk locals (source.advance slice) functionId ctx display

/-- The parameters that `sendTransaction` and `submitTransaction` share. -/
def deserializeRecipient (sdk : Sdk) (locals : Locals) (slice : SliceData) (display : Display) :
    Outcome (SliceData × List UInt8 × Display) := do
  -- Recipient address
  let (slice, dstWc, dstAddress) ← deserializeAddress slice 0 locals.dstAddress.toList
  let display := setDstAddress sdk dstWc dstAddress display
  -- Amount
  let (slice, amount) ← deserializeValue slice amountLength
  let (_bounce, slice) ← slice.getNextBit
  pure (slice, amount, display)

def deserializeMultisigParams (sdk : Sdk) (locals : Locals) (slice : SliceData)
    (functionId : Nat) (wc : UInt8) (address : List UInt8) (ctx : SignTransactionContext)
    (display : Display) : Outcome (Flow × SliceData × Display) :=
  match ContractFunction.ofId functionId with
  | some .deployTransaction =>
      -- Address to deploy
      pure (.deploy, slice, setDstAddress sdk wc address display)
  | some .sendTransaction => do
      let (slice, amount, display) ← deserializeRecipient sdk locals slice display
      let (flags, slice) ← slice.getNextByte
      let display ← setAmount amount amountLength flags ctx.decimals ctx.ticker display
      pure (.transfer, slice, display)
  | some .submitTransaction => do
      let (slice, amount, display) ← deserializeRecipient sdk locals slice display
      let (allBalance, slice) ← slice.getNextBit
      let flags := if allBalance = 0 then normalFlag else allBalanceFlag
      let display ← setAmount amount amountLength flags ctx.decimals ctx.ticker display
      pure (.transfer, slice, display)
  | some .confirmTransaction => do
      -- Transaction id
      let (slice, id) ← deserializeValue slice transactionIdLength
      let display ← setTransactionId sdk id display
      pure (.confirm, slice, display)
  | none => .error (.thrown .invalidFunctionId)

/-- The context after hashing, and the bytes of `to_sign`. -/
def preparePayloadHash (sdk : Sdk) (ctx : SignTransactionContext) (bc : BocContext) :
    Outcome (BocContext × List UInt8) := do
  let bc ← calcCellHashes sdk bc.cellsCount bc
  let rootHash := (bc.hashes rootCellIndex).toList
  if ¬ ctx.signWithChainId then pure (bc, rootHash)
  else pure (bc, ctx.chainId ++ rootHash)

def deserializeWalletV3 (slice : SliceData) : Outcome (Nat × SliceData) := do
  let (id, slice) ← slice.getNextInt 32
  validate (id = walletId) .invalidMessage
  let (_expireAt, slice) ← slice.getNextInt 32
  let (_seqno, slice) ← slice.getNextInt 32
  let (flags, slice) ← slice.getNextByte
  validate (slice.remainingBits = 0) .invalidMessage
  pure (flags, slice)

def deserializeContractHeader (slice : SliceData) : Outcome (Nat × SliceData) := do
  let (isPubkeyPresent, slice) ← slice.getNextBit
  let slice ← (if isPubkeyPresent ≠ 0 then slice.moveBy (publicKeyLength * 8) else pure slice)
  let (_time, slice) ← slice.getNextInt 64
  let (_expire, slice) ← slice.getNextInt 32
  slice.getNextInt 32

/-- The reference loop of `prepend_address_to_cell`. -/
def copyRefs (refs : List UInt8) (start : Nat) :
    (count : Nat) → (child : Nat) → List UInt8 → Outcome (List UInt8)
  | 0, _, cellBuffer => pure cellBuffer
  | count + 1, child, cellBuffer => do
      let ref ← load refs child
      let cellBuffer ← store cellBuffer (start + child) ref
      copyRefs refs start count (child + 1) cellBuffer

/-- The second descriptor byte of a cell of `bitLen` bits. -/
def d2OfBitLen (bitLen : Nat) : UInt8 :=
  UInt8.ofNat (((bitLen >>> 2) &&& 0b11111110) ||| if bitLen % 8 ≠ 0 then 1 else 0)

/-- The slice starts two bytes into the buffer, yet is given the size of all of
it; what the buffer does not have is out of reach of the slice. -/
def prependAddressToCell (cellBuffer : List UInt8) (cell : Cell) (wc : UInt8)
    (address : List UInt8) : Outcome Cell := do
  let bitLen ← cell.bitLen
  -- Prefix(2) + Anycast(1) + WorkchainId(8) + Address(32 * 8)
  let bitLen := bitLen + 267
  let d1 ← cell.getD1
  let d2 := d2OfBitLen bitLen
  let cellBuffer ← store cellBuffer 0 d1
  let cellBuffer ← store cellBuffer 1 d2
  let slice := SliceData.init (cellBuffer.drop cellDataOffset) cellBufferSize
  -- Append prefix $100 of AddrStd
  let slice ← slice.append [0x80] 3 false
  -- Append workchain
  let slice ← slice.append [wc] 8 false
  -- Append address
  let slice ← slice.append address (addressLength * 8) false
  -- Append cell data
  let data ← cell.getData
  let dataSize ← cell.getDataSize
  let slice ← slice.append data (dataSize * 8) false
  let cellBuffer := cellBuffer.take cellDataOffset ++ slice.data
  -- Append references
  let (refs, refsCount) ← cell.getRefs
  validate (refsCount ≤ maxReferencesCount) .invalidMessage
  let cellBuffer ← copyRefs refs (cellDataOffset + dataSizeOf d2) refsCount 0 cellBuffer
  -- Replace cell
  pure { cell with cellBegin := some cellBuffer }

/-- What `prepare_to_sign` has decoded when it comes to hashing: the result for
the screens, and the slices with as many bits as were consumed. -/
structure Decoded where
  flow : Flow
  display : Display
  /-- The cell that `gift_cell` points to. -/
  giftIndex : Nat
  giftSlice : SliceData
  /-- The slice of cell `GIFT_CELL_INDEX + 1`, where the code makes one. -/
  bodySlice : Option SliceData

/-- `VALIDATE(bc->cells_count > index, ERR_INVALID_CELL_INDEX)` -/
def cellAt (bc : BocContext) (index : Nat) : Outcome Cell := do
  validate (bc.cellsCount > index) .invalidCellIndex
  pure (bc.cells index)

/-- The case `WALLET_V3`, up to hashing. -/
def decodeWalletV3 (sdk : Sdk) (locals : Locals) (bc : BocContext) (rootSlice : SliceData)
    (ctx : SignTransactionContext) : Outcome Decoded := do
  let (flags, _) ← deserializeWalletV3 rootSlice
  -- Gift
  let giftCell ← cellAt bc giftCellIndex
  let giftSlice ← SliceData.fromCell giftCell
  -- Deserialize header
  let (giftSlice, display) ←
    deserializeIntMessageHeader sdk locals giftSlice flags ctx Display.untouched
  -- Deserialize StateInit
  let (stateInitBit, giftSlice) ← giftSlice.getNextBit
  validate (stateInitBit = 0) .invalidMessage
  -- Deserialize Body
  let (_, giftRefsCount) ← giftCell.getRefs
  let (bodyBit, giftSlice) ← giftSlice.getNextBit
  if bodyBit ≠ 0 ∨ giftRefsCount ≠ 0 then do
    let refCell ← cellAt bc (giftCellIndex + 1)
    let refSlice ← SliceData.fromCell refCell
    let (flow, source, display) ←
      deserializeTokenBody sdk locals ⟨giftSlice, some refSlice, false⟩ ctx display
    pure ⟨flow, display, giftCellIndex, source.slice, source.refSlice⟩
  else pure ⟨.transfer, display, giftCellIndex, giftSlice, none⟩

/-- The gift body of a contract wallet: a function call of its own, which sets
the flow anew. -/
def decodeGiftBody (sdk : Sdk) (locals : Locals) (bc : BocContext) (giftCell : Cell)
    (ctx : SignTransactionContext) (decoded : Decoded) : Outcome Decoded := do
  let (_, giftRefsCount) ← giftCell.getRefs
  if giftRefsCount ≠ 0 then do
    let bodyCell ← cellAt bc (giftCellIndex + 1)
    let bodySlice ← SliceData.fromCell bodyCell
    if bodySlice.isEmpty then pure { decoded with bodySlice := some bodySlice }
    else do
      let (flow, source, display) ←
        deserializeTokenBody sdk locals ⟨bodySlice, none, false⟩ ctx decoded.display
      pure { decoded with flow, display, bodySlice := some source.slice }
  else pure decoded

/-- The case of the older contract wallets, up to hashing: the parameters of
`confirmTransaction` follow the header in the root cell. -/
def decodeContract (sdk : Sdk) (locals : Locals) (bc : BocContext) (rootCell : Cell)
    (rootSlice : SliceData) (wc : UInt8) (address : List UInt8)
    (ctx : SignTransactionContext) : Outcome Decoded := do
  -- Header
  let (functionId, rootSlice) ← deserializeContractHeader rootSlice
  let inSameCell : Bool := ContractFunction.ofId functionId = some .confirmTransaction
  -- Gift
  validate (inSameCell ∨ bc.cellsCount > giftCellIndex) .invalidCellIndex
  let giftCell := if inSameCell then rootCell else bc.cells giftCellIndex
  let giftSlice ← (if inSameCell then pure rootSlice else SliceData.fromCell giftCell)
  let (flow, giftSlice, display) ← deserializeMultisigParams sdk locals giftSlice functionId
    wc address ctx Display.untouched
  let giftIndex := if inSameCell then rootCellIndex else giftCellIndex
  -- Gift body
  decodeGiftBody sdk locals bc giftCell ctx ⟨flow, display, giftIndex, giftSlice, none⟩

/-- The case of the wallets whose messages sign over the account address, up to
the rewriting of the root cell. -/
def decodePrefixedContract (sdk : Sdk) (locals : Locals) (bc : BocContext)
    (rootSlice : SliceData) (wc : UInt8) (address : List UInt8)
    (ctx : SignTransactionContext) : Outcome Decoded := do
  -- Header
  let (functionId, _) ← deserializeContractHeader rootSlice
  -- Gift
  let giftCell ← cellAt bc giftCellIndex
  let giftSlice ← SliceData.fromCell giftCell
  let (flow, giftSlice, display) ← deserializeMultisigParams sdk locals giftSlice functionId
    wc address ctx Display.untouched
  -- Gift body
  decodeGiftBody sdk locals bc giftCell ctx ⟨flow, display, giftCellIndex, giftSlice, none⟩

/-- The result of `prepare_to_sign`, together with what it leaves in
`boc_context` and the context as it was when the root hash was taken. -/
structure Prepared where
  decoded : Decoded
  toSign : List UInt8
  hashed : BocContext
  bc : BocContext

/-- The three branches of the switch over `current_wallet_type`. -/
inductive WalletFamily where
  | walletV3
  | contract
  | prefixedContract
deriving DecidableEq

def WalletType.family : WalletType → WalletFamily
  | .walletV3 => .walletV3
  | .safeMultisigWallet | .safeMultisigWallet24h | .setcodeMultisigWallet
  | .bridgeMultisigWallet | .surfWallet => .contract
  | .everWallet | .multisig2 | .multisig21 => .prefixedContract

def prepareToSign (sdk : Sdk) (locals : Locals) (ctx : SignTransactionContext)
    (bc : BocContext) (src : ByteStream) (wc : UInt8) (address prependAddress : List UInt8) :
    Outcome Prepared := do
  -- Parse transaction boc
  let (_, bc) ← deserializeCellsTree src bc
  -- Root
  validate (bc.cellsCount > rootCellIndex) .invalidMessage
  let rootCell := bc.cells rootCellIndex
  let rootSlice ← SliceData.fromCell rootCell
  match (WalletType.ofByte ctx.currentWalletType).map WalletType.family with
  | some .walletV3 => do
      let decoded ← decodeWalletV3 sdk locals bc rootSlice ctx
      let (bc, toSign) ← preparePayloadHash sdk ctx bc
      pure ⟨decoded, toSign, bc, bc⟩
  | some .contract => do
      let decoded ← decodeContract sdk locals bc rootCell rootSlice wc address ctx
      let (bc, toSign) ← preparePayloadHash sdk ctx bc
      pure ⟨decoded, toSign, bc, bc⟩
  | some .prefixedContract => do
      let decoded ← decodePrefixedContract sdk locals bc rootSlice wc address ctx
      -- Prepend address to root cell
      let rootCell ← prependAddressToCell locals.cellBuffer.toList rootCell wc prependAddress
      let (bc, toSign) ← preparePayloadHash sdk ctx (bc.setCell rootCellIndex rootCell)
      -- Detach cell_buffer reference from global boc context
      pure ⟨decoded, toSign, bc, BocContext.zero⟩
  | none => .error (.thrown .invalidWalletType)

end EverscaleLedger.Source
