import EverscaleLedger.Source.CellHash
import EverscaleLedger.Source.HashmapLabel
import EverscaleLedger.Source.Utils

/-! `contract.c`: the parser of serialized cells and the derivation of wallet
addresses. -/
namespace EverscaleLedger.Source

/-! The wallet templates are serialized cells that stop before the code cell. -/

def safeMultisigWallet : List UInt8 := [
  0x01, 0x02, 0x49, 0x01, 0x00, 0x10, 0xF4, 0x00, 0x02, 0x01, 0x34, 0x06, 0x01, 0x01,
  0x01, 0xC0, 0x02, 0x02, 0x03, 0xCF, 0x20, 0x05, 0x03, 0x01, 0x01, 0xDE, 0x04, 0x00,
  0x03, 0xD0, 0x20, 0x00, 0x41, 0xD8, 0x00, 0x00, 0x00, 0x00, 0x00, 0x00, 0x00, 0x00,
  0x00, 0x00, 0x00, 0x00, 0x00, 0x00, 0x00, 0x00, 0x00, 0x00, 0x00, 0x00, 0x00, 0x00,
  0x00, 0x00, 0x00, 0x00, 0x00, 0x00, 0x00, 0x00, 0x00, 0x04]

def safeMultisigWallet24h : List UInt8 := [
  0x01, 0x02, 0x49, 0x01, 0x00, 0x10, 0xF7, 0x00, 0x02, 0x01, 0x34, 0x06, 0x01, 0x01,
  0x01, 0xC0, 0x02, 0x02, 0x03, 0xCF, 0x20, 0x05, 0x03, 0x01, 0x01, 0xDE, 0x04, 0x00,
  0x03, 0xD0, 0x20, 0x00, 0x41, 0xD8, 0x00, 0x00, 0x00, 0x00, 0x00, 0x00, 0x00, 0x00,
  0x00, 0x00, 0x00, 0x00, 0x00, 0x00, 0x00, 0x00, 0x00, 0x00, 0x00, 0x00, 0x00, 0x00,
  0x00, 0x00, 0x00, 0x00, 0x00, 0x00, 0x00, 0x00, 0x00, 0x04]

def setcodeMultisigWallet : List UInt8 := [
  0x01, 0x02, 0x65, 0x01, 0x00, 0x1A, 0x04, 0x00, 0x02, 0x01, 0x34, 0x06, 0x01, 0x01,
  0x01, 0xC0, 0x02, 0x02, 0x03, 0xCF, 0x20, 0x05, 0x03, 0x01, 0x01, 0xDE, 0x04, 0x00,
  0x03, 0xD0, 0x20, 0x00, 0x41, 0xD8, 0x00, 0x00, 0x00, 0x00, 0x00, 0x00, 0x00, 0x00,
  0x00, 0x00, 0x00, 0x00, 0x00, 0x00, 0x00, 0x00, 0x00, 0x00, 0x00, 0x00, 0x00, 0x00,
  0x00, 0x00, 0x00, 0x00, 0x00, 0x00, 0x00, 0x00, 0x00, 0x04]

def bridgeMultisigWallet : List UInt8 := [
  0x01, 0x02, 0x45, 0x01, 0x00, 0x11, 0x04, 0x00, 0x02, 0x01, 0x34, 0x03, 0x01, 0x01,
  0x01, 0xC0, 0x02, 0x00, 0x43, 0xD0, 0x00, 0x00, 0x00, 0x00, 0x00, 0x00, 0x00, 0x00,
  0x00, 0x00, 0x00, 0x00, 0x00, 0x00, 0x00, 0x00, 0x00, 0x00, 0x00, 0x00, 0x00, 0x00,
  0x00, 0x00, 0x00, 0x00, 0x00, 0x00, 0x00, 0x00, 0x00, 0x00, 0x20]

def multisig2Wallet : List UInt8 := [
  0x01, 0x02, 0x56, 0x01, 0x00, 0x0F, 0xDD, 0x00, 0x02, 0x01, 0x34, 0x03, 0x01, 0x01,
  0x01, 0xC0, 0x02, 0x00, 0x43, 0xD0, 0x00, 0x00, 0x00, 0x00, 0x00, 0x00, 0x00, 0x00,
  0x00, 0x00, 0x00, 0x00, 0x00, 0x00, 0x00, 0x00, 0x00, 0x00, 0x00, 0x00, 0x00, 0x00,
  0x00, 0x00, 0x00, 0x00, 0x00, 0x00, 0x00, 0x00, 0x00, 0x00, 0x20]

def multisig21Wallet : List UInt8 := [
  0x01, 0x02, 0x4D, 0x01, 0x00, 0x10, 0xB2, 0x00, 0x02, 0x01, 0x34, 0x03, 0x01, 0x01,
  0x01, 0xC0, 0x02, 0x00, 0x43, 0xD0, 0x00, 0x00, 0x00, 0x00, 0x00, 0x00, 0x00, 0x00,
  0x00, 0x00, 0x00, 0x00, 0x00, 0x00, 0x00, 0x00, 0x00, 0x00, 0x00, 0x00, 0x00, 0x00,
  0x00, 0x00, 0x00, 0x00, 0x00, 0x00, 0x00, 0x00, 0x00, 0x00, 0x20]

def surfWallet : List UInt8 := [
  0x01, 0x02, 0x4D, 0x01, 0x00, 0x12, 0xB4, 0x00, 0x02, 0x01, 0x34, 0x03, 0x01, 0x01,
  0x01, 0xC0, 0x02, 0x00, 0x43, 0xD0, 0x00, 0x00, 0x00, 0x00, 0x00, 0x00, 0x00, 0x00,
  0x00, 0x00, 0x00, 0x00, 0x00, 0x00, 0x00, 0x00, 0x00, 0x00, 0x00, 0x00, 0x00, 0x00,
  0x00, 0x00, 0x00, 0x00, 0x00, 0x00, 0x00, 0x00, 0x00, 0x00, 0x20]

def walletV3CodeHash : Hash := #v[
  0x84, 0xDA, 0xFA, 0x44, 0x9F, 0x98, 0xA6, 0x98, 0x77, 0x89, 0xBA, 0x23, 0x23, 0x58, 0x07, 0x2B,
  0xC0, 0xF7, 0x6D, 0xC4, 0x52, 0x40, 0x02, 0xA5, 0xD0, 0x91, 0x8B, 0x9A, 0x75, 0xD2, 0xD5, 0x99]

def everWalletCodeHash : Hash := #v[
  0x3B, 0xA6, 0x52, 0x8A, 0xB2, 0x69, 0x4C, 0x11, 0x81, 0x80, 0xAA, 0x3B, 0xD1, 0x0D, 0xD1, 0x9F,
  0xF4, 0x00, 0xB9, 0x09, 0xAB, 0x4D, 0xCF, 0x58, 0xFC, 0x69, 0x92, 0x5B, 0x2C, 0x7B, 0x12, 0xA6]

def safeMultisigWalletCodeHash : Hash := #v[
  0x80, 0xD6, 0xC4, 0x7C, 0x4A, 0x25, 0x54, 0x3C, 0x9B, 0x39, 0x7B, 0x71, 0x71, 0x6F, 0x3F, 0xAE,
  0x1E, 0x2C, 0x5D, 0x24, 0x71, 0x74, 0xC5, 0x2E, 0x2C, 0x19, 0xBD, 0x89, 0x64, 0x42, 0xB1, 0x05]

def safeMultisigWallet24hCodeHash : Hash := #v[
  0x7D, 0x09, 0x96, 0x94, 0x34, 0x06, 0xF7, 0xD6, 0x2A, 0x4F, 0xF2, 0x91, 0xB1, 0x22, 0x8B, 0xF0,
  0x6E, 0xBD, 0x3E, 0x04, 0x8B, 0x58, 0x43, 0x6C, 0x5B, 0x70, 0xFB, 0x77, 0xFF, 0x8B, 0x4B, 0xF2]

def setcodeMultisigWalletCodeHash : Hash := #v[
  0xE2, 0xB6, 0x0B, 0x6B, 0x60, 0x2C, 0x10, 0xCE, 0xD7, 0xEA, 0x8E, 0xDE, 0x4B, 0xDF, 0x96, 0x34,
  0x2C, 0x97, 0x57, 0x0A, 0x37, 0x98, 0x06, 0x6F, 0x3F, 0xB5, 0x0A, 0x4B, 0x2B, 0x27, 0xA2, 0x08]

def bridgeMultisigWalletCodeHash : Hash := #v[
  0xF3, 0xA0, 0x7A, 0xE8, 0x4F, 0xC3, 0x43, 0x25, 0x9D, 0x7F, 0xA4, 0x84, 0x7B, 0x86, 0x33, 0x5B,
  0x3F, 0xDC, 0xFC, 0x8B, 0x31, 0xF1, 0xBA, 0x4B, 0x7A, 0x94, 0x99, 0xD5, 0x53, 0x0F, 0x0B, 0x18]

def multisig2WalletCodeHash : Hash := #v[
  0x29, 0xB2, 0x47, 0x76, 0xB3, 0xDF, 0x6A, 0x05, 0xC5, 0xA1, 0xB8, 0xD8, 0xFD, 0x75, 0xCB, 0x72,
  0xA1, 0xD3, 0x3C, 0x0A, 0x44, 0x38, 0x53, 0x32, 0xA8, 0xBF, 0xC2, 0x72, 0x7F, 0xB6, 0x65, 0x90]

def multisig21WalletCodeHash : Hash := #v[
  0xD6, 0x6D, 0x19, 0x87, 0x66, 0xAB, 0xDB, 0xE1, 0x25, 0x3F, 0x34, 0x15, 0x82, 0x6C, 0x94, 0x6C,
  0x37, 0x1F, 0x51, 0x12, 0x55, 0x24, 0x08, 0x62, 0x5A, 0xEB, 0x0B, 0x31, 0xE0, 0xEF, 0x2D, 0xF3]

def surfWalletCodeHash : Hash := #v[
  0x20, 0x7D, 0xC5, 0x60, 0xC5, 0x95, 0x6D, 0xE1, 0xA2, 0xC1, 0x47, 0x93, 0x56, 0xF8, 0xF3, 0xEE,
  0x70, 0xA5, 0x97, 0x67, 0xDB, 0x2B, 0xF4, 0x78, 0x8B, 0x1D, 0x61, 0xAD, 0x42, 0xCD, 0xAD, 0x82]

inductive WalletType where
  | walletV3
  | everWallet
  | safeMultisigWallet
  | safeMultisigWallet24h
  | setcodeMultisigWallet
  | bridgeMultisigWallet
  | surfWallet
  | multisig2
  | multisig21
deriving DecidableEq

def WalletType.ofByte (byte : UInt8) : Option WalletType :=
  match byte.toNat with
  | 0 => some .walletV3
  | 1 => some .everWallet
  | 2 => some .safeMultisigWallet
  | 3 => some .safeMultisigWallet24h
  | 4 => some .setcodeMultisigWallet
  | 5 => some .bridgeMultisigWallet
  | 6 => some .surfWallet
  | 7 => some .multisig2
  | 8 => some .multisig21
  | _ => none

/-- The cell loop of `deserialize_cells_tree`: `count` cells are left, starting
with number `i`. The loop ends early when the stream does. -/
def deserializeCells (cellsCount : Nat) :
    (count : Nat) → (i : Nat) → ByteStream → BocContext → Outcome (ByteStream × BocContext)
  | 0, _, src, bc => pure (src, bc)
  | count + 1, i, src, bc => do
      validate (i < maxContractCellsCount) .invalidContract
      let cell := Cell.init src.getCursor src.getLength
      let offset ← cell.deserialize i cellsCount
      let bc := bc.setCell i cell
      let (_, src) ← src.readData offset
      let bc := { bc with cellsCount := bc.cellsCount + 1 }
      if src.offset ≥ src.dataSize then pure (src, bc)
      else deserializeCells cellsCount count (i + 1) src bc

def deserializeCellsTree (src : ByteStream) (bc : BocContext) :
    Outcome (ByteStream × BocContext) := do
  let (firstByte, src) ← src.readByte
  let indexIncluded := firstByte.toNat &&& 0x80 ≠ 0
  let hasCrc := firstByte.toNat &&& 0x40 ≠ 0
  let hasCacheBits := firstByte.toNat &&& 0x20 ≠ 0
  validate (¬ indexIncluded ∧ ¬ hasCrc ∧ ¬ hasCacheBits) .invalidContract
  let refSize := firstByte.toNat &&& 0x7
  validate (refSize = 1) .invalidContract
  let (offsetSize, src) ← src.readByte
  validate (offsetSize ≠ 0 ∧ offsetSize.toNat ≤ 8) .invalidContract
  let (cellsCount, src) ← src.readUint refSize
  let (rootsCount, src) ← src.readUint refSize
  validate (rootsCount = maxRootsCount) .invalidContract
  -- The number of absent cells, the total size and the root list are skipped.
  let (_, src) ← src.readUint refSize
  let (_, src) ← src.readData offsetSize.toNat
  let (_, src) ← src.readData (rootsCount * refSize)
  deserializeCells cellsCount cellsCount 0 src { bc with cellsCount := 0 }

def findPublicKeyCell (bc : BocContext) : Outcome BocContext := do
  let rootData ← (bc.cells 0).getData
  let first ← load rootData 0
  validate (first.toNat &&& 0x20 ≠ 0) .invalidContract
  let (refs, refsCount) ← (bc.cells 0).getRefs
  validate (refsCount > 0 ∧ refsCount ≤ 2) .invalidContract
  let dataRoot ← load refs (refsCount - 1)
  validate (dataRoot ≠ 0 ∧ dataRoot.toNat ≤ maxContractCellsCount) .invalidContract
  let dataRoot ← BocContext.slot dataRoot.toNat
  let (refs, refsCount) ← (bc.cells dataRoot).getRefs
  validate (refsCount ≠ 0 ∧ refsCount ≤ maxReferencesCount) .invalidContract
  let key := SliceData.init (List.replicate 8 0) 8
  let next ← load refs 0
  putToNode bc next.toNat key.remainingBits key

/-- `calc_cell_hash` on the cells `count - 1` down to `0`. -/
def calcCellHashes (sdk : Sdk) : (count : Nat) → BocContext → Outcome BocContext
  | 0, bc => pure bc
  | i + 1, bc => do
      let bc ← calcCellHash sdk (bc.cells i) i bc
      calcCellHashes sdk i bc

/-- The representation of a data cell of 40 bytes. -/
def dataCellBuffer (data : List UInt8) : List UInt8 := [0x00, 0x50] ++ data

/-- The representation of a `StateInit` cell with a code and a data reference. -/
def stateInitBuffer (depths : Nat) (codeHash dataHash : Hash) : List UInt8 :=
  [0x02, 0x01, 0x34] ++ writeUintBE 4 depths ++ codeHash.toList ++ dataHash.toList

def computeWalletV3Address (sdk : Sdk) (accountNumber : Nat) : Outcome Hash :=
  match getPublicKey sdk accountNumber with
  | none => .error (.thrown .getPublicKeyFailed)
  | some publicKey =>
      let dataHash := sdk.sha256 (dataCellBuffer (writeUintBE 8 walletId ++ publicKey.toList))
      .ok (sdk.sha256 (stateInitBuffer 0x00 walletV3CodeHash dataHash))

def computeEverWalletAddress (sdk : Sdk) (accountNumber : Nat) : Outcome Hash :=
  match getPublicKey sdk accountNumber with
  | none => .error (.thrown .getPublicKeyFailed)
  | some publicKey =>
      let dataHash := sdk.sha256 (dataCellBuffer (publicKey.toList ++ writeUintBE 8 0))
      .ok (sdk.sha256 (stateInitBuffer 0x30000 everWalletCodeHash dataHash))

/-- Parses the template, finds the cell of the public key and injects the hash
and depth of the code cell into the slot after it. -/
def loadWallet (wallet : List UInt8) (codeHash : Hash) (cellDepth : Nat) (bc : BocContext) :
    Outcome BocContext := do
  let src ← ByteStream.init wallet
  let (_, bc) ← deserializeCellsTree src bc
  validate (bc.cellsCount ≠ 0) .invalidContract
  let bc ← findPublicKeyCell bc
  let codeIndex ← BocContext.slot (bc.publicKeyCellIndex + 1)
  let bc := (bc.setHash codeIndex codeHash).setDepth codeIndex (UInt8.ofNat cellDepth)
  validate (bc.publicKeyCellIndex ≠ 0 ∧ bc.publicKeyLabelSizeBits ≠ 0) .invalidContract
  pure bc

/-- The bytes that replace the data of the public key cell. -/
def insertPublicKey (bc : BocContext) (publicKey : Hash) : Outcome (List UInt8) := do
  let slice := SliceData.init bc.publicKeyCellData maxPublicKeyCellDataSize
  let slice ← slice.moveBy bc.publicKeyLabelSizeBits
  let slice ← slice.append publicKey.toList (publicKeyLength * 8) true
  pure slice.data

def computeMultisigAddress (sdk : Sdk) (accountNumber : Nat) (wallet : List UInt8)
    (codeHash : Hash) (cellDepth : Nat) (bc : BocContext) (dc : DataContext) :
    Outcome (Hash × BocContext × DataContext) := do
  let bc ← loadWallet wallet codeHash cellDepth bc
  let cellIndex ← BocContext.slot bc.publicKeyCellIndex
  let cell := bc.cells cellIndex
  let cellDataSize ← cell.getDataSize
  validate (cellDataSize ≠ 0 ∧ cellDataSize ≤ maxPublicKeyCellDataSize) .invalidContract
  let cellData ← cell.getData
  let block ← loadMany cellData cellDataSize
  let publicKeyCellData ← storeMany bc.publicKeyCellData 0 block
  match getPublicKey sdk accountNumber with
  | none => .error (.thrown .getPublicKeyFailed)
  | some publicKey => do
      let dc := dc.write DataContext.pkContext.publicKey.offset publicKey.toList
      let bc := { bc with publicKeyCellData }
      let publicKeyCellData ← insertPublicKey bc publicKey
      let bc := { bc with publicKeyCellData }
      let bc ← calcCellHashes sdk (bc.publicKeyCellIndex + 1) bc
      pure (bc.hashes 0, bc, dc)

/-- The address, and what its computation leaves in the global contexts. -/
def getAddress (sdk : Sdk) (accountNumber : Nat) (walletType : UInt8) (bc : BocContext)
    (dc : DataContext) : Outcome (Hash × BocContext × DataContext) :=
  match WalletType.ofByte walletType with
  | some .walletV3 => do
      let address ← computeWalletV3Address sdk accountNumber
      pure (address, bc, dc)
  | some .everWallet => do
      let address ← computeEverWalletAddress sdk accountNumber
      pure (address, bc, dc)
  | some .safeMultisigWallet =>
      computeMultisigAddress sdk accountNumber safeMultisigWallet safeMultisigWalletCodeHash
        0x0C bc dc
  | some .safeMultisigWallet24h =>
      computeMultisigAddress sdk accountNumber safeMultisigWallet24h safeMultisigWallet24hCodeHash
        0x0C bc dc
  | some .setcodeMultisigWallet =>
      computeMultisigAddress sdk accountNumber setcodeMultisigWallet setcodeMultisigWalletCodeHash
        0x0D bc dc
  | some .bridgeMultisigWallet =>
      computeMultisigAddress sdk accountNumber bridgeMultisigWallet bridgeMultisigWalletCodeHash
        0x0B bc dc
  | some .multisig2 =>
      computeMultisigAddress sdk accountNumber multisig2Wallet multisig2WalletCodeHash
        0x0C bc dc
  | some .multisig21 =>
      computeMultisigAddress sdk accountNumber multisig21Wallet multisig21WalletCodeHash
        0x0A bc dc
  | some .surfWallet =>
      computeMultisigAddress sdk accountNumber surfWallet surfWalletCodeHash
        0x0C bc dc
  | none => .error (.thrown .invalidWalletType)

end EverscaleLedger.Source
