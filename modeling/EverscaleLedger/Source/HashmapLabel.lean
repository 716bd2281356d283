import EverscaleLedger.Source.Globals
import EverscaleLedger.Source.SliceData

/-! `hashmap_label.c`: the walk through the dictionary of a wallet's data cell to
the leaf of the all-zero key. -/
namespace EverscaleLedger.Source

/-- Returns the slice past the label, and the label itself. -/
def getLabelSame (max : Nat) (slice label : SliceData) : Outcome (SliceData × SliceData) := do
  let (bit, slice) ← slice.getNextBit
  let value : UInt8 := if bit ≠ 0 then 0xff else 0
  let (length, slice) ← slice.getNextSize max
  let length := length % 256
  validate (length ≤ 64) .rangeCheck
  let lengthBytes := length / 8 + if length % 8 ≠ 0 then 1 else 0
  let label ← label.fill value lengthBytes
  let label ← label.truncate length
  pure (slice, label)

def getLabel (max : Nat) (slice label : SliceData) : Outcome (SliceData × SliceData) := do
  validate (slice.isEmpty = false) .sliceIsEmpty
  let (short, slice) ← slice.getNextBit
  validate (short = 1) .wrongLabel
  let (long, slice) ← slice.getNextBit
  validate (long = 1) .wrongLabel
  getLabelSame (max % 256) slice label

def keyLenBytes : Nat := 8

/-- The length of the common prefix of two slices, at most `count`, from `i` on. -/
def commonPrefix (label key : SliceData) : (count : Nat) → (i : Nat) → Outcome Nat
  | 0, i => pure i
  | count + 1, i => do
      let left ← label.getBits i 1
      let right ← key.getBits i 1
      if left = right then commonPrefix label key count (i + 1) else pure i

/-- One call of `put_to_node` ends at the leaf (`found`), or goes on with a
child cell and what is left of the key. -/
inductive NodeStep where
  | found (bc : BocContext)
  | descend (cellIndex bitLen : Nat) (key : SliceData)

def putToNodeStep (bc : BocContext) (cellIndex bitLen : Nat) (key : SliceData) :
    Outcome NodeStep := do
  validate (cellIndex ≠ 0 ∧ cellIndex ≤ maxContractCellsCount) .invalidData
  validate (key.dataSizeBytes = keyLenBytes) .rangeCheck
  let keyBytes ← loadMany key.data keyLenBytes
  validate (∀ byte ∈ keyBytes, byte = 0) .invalidKey
  let cellIndex ← BocContext.slot cellIndex
  let cell := bc.cells cellIndex
  let cellData ← cell.getData
  let cellDataSize ← cell.getDataSize
  let slice := SliceData.init cellData cellDataSize
  let label := SliceData.init (List.replicate 8 0) 8
  let (_, label) ← getLabel bitLen slice label
  if ← label.equal key then do
    let len := 16 - leadingZeros bitLen
    let labelSizeBits := 2 + 1 + len
    pure (.found { bc with
      publicKeyLabelSizeBits := labelSizeBits, publicKeyCellIndex := cellIndex })
  else do
    let maxPrefixLen := min label.remainingBits key.remainingBits
    validate (maxPrefixLen ≤ 64) .rangeCheck
    let i ← commonPrefix label key maxPrefixLen 0
    let key ← key.moveBy i
    let label ← label.truncate i
    let labelRb := label.remainingBits
    validate (bitLen ≥ labelRb) .cellUnderflow
    let bitLen := bitLen - labelRb
    validate (bitLen ≥ 1) .cellUnderflow
    let (nextIndex, key) ← key.getNextBit
    validate (nextIndex = 0) .invalidKey
    let (refs, refsCount) ← cell.getRefs
    validate (refsCount > 0 ∧ refsCount ≤ maxReferencesCount) .invalidData
    let nextCell ← load refs nextIndex
    validate (nextCell.toNat ≠ 0 ∧ nextCell.toNat ≤ maxContractCellsCount) .invalidData
    pure (.descend nextCell.toNat (bitLen - 1) key)

/-- Every call shortens `bitLen`, so `fuel = bitLen + 1` calls are enough. -/
def putToNodeFuel : (fuel : Nat) → BocContext → (cellIndex bitLen : Nat) → SliceData →
    Outcome BocContext
  | 0, _, _, _, _ => .error .fault
  | fuel + 1, bc, cellIndex, bitLen, key => do
      match ← putToNodeStep bc cellIndex bitLen key with
      | .found bc => pure bc
      | .descend cellIndex bitLen key => putToNodeFuel fuel bc cellIndex bitLen key

def putToNode (bc : BocContext) (cellIndex bitLen : Nat) (key : SliceData) :
    Outcome BocContext :=
  putToNodeFuel (bitLen + 1) bc cellIndex bitLen key

end EverscaleLedger.Source
