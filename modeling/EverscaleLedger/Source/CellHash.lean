import EverscaleLedger.Source.Globals

/-! `calc_cell_hash` of `cell.c`. -/
namespace EverscaleLedger.Source

/-- `*depth = (*depth > child_depth + 1) ? *depth : (child_depth + 1)`, stored
in a byte. -/
def raiseDepth (depth childDepth : UInt8) : UInt8 :=
  if depth.toNat > childDepth.toNat + 1 then depth else UInt8.ofNat (childDepth.toNat + 1)

/-- First loop over the references: raises the depth of the cell and appends the
two depth bytes of each child. -/
def hashDepths (refs : List UInt8) (cellIndex : Nat) :
    (count : Nat) → (child : Nat) → BocContext → List UInt8 → Outcome (BocContext × List UInt8)
  | 0, _, bc, buffer => pure (bc, buffer)
  | count + 1, child, bc, buffer => do
      let ref ← load refs child
      validate (ref.toNat < maxContractCellsCount) .invalidCell
      let childDepth := bc.cellDepth ref.toNat
      let bc := bc.setDepth cellIndex (raiseDepth (bc.cellDepth cellIndex) childDepth)
      hashDepths refs cellIndex count (child + 1) bc (buffer ++ [0, childDepth])

/-- Second loop over the references: appends the hash of each child. -/
def hashHashes (refs : List UInt8) (bc : BocContext) :
    (count : Nat) → (child : Nat) → List UInt8 → Outcome (List UInt8)
  | 0, _, buffer => pure buffer
  | count + 1, child, buffer => do
      let ref ← load refs child
      let index ← BocContext.slot ref.toNat
      hashHashes refs bc count (child + 1) (buffer ++ (bc.hashes index).toList)

/-- The data of an ordinary cell; the public key cell has its own buffer. -/
def loadCellData (cell : Cell) (cellIndex dataSize : Nat) (bc : BocContext) :
    Outcome (List UInt8) :=
  if bc.publicKeyCellIndex ≠ 0 ∧ cellIndex = bc.publicKeyCellIndex then
    loadMany bc.publicKeyCellData dataSize
  else do
    let cellData ← cell.getData
    loadMany cellData dataSize

def calcCellHash (sdk : Sdk) (cell : Cell) (cellIndex : Nat) (bc : BocContext) :
    Outcome BocContext := do
  let cellIndex ← BocContext.slot cellIndex
  let d1 ← cell.getD1
  if d1 = prunedBranchD1 then do
    -- The depth is two bytes big-endian; only the second one is read.
    let cellData ← cell.getData
    let hash ← loadMany (cellData.drop 2) hashSize
    let depth ← load cellData (2 + hashSize + 1)
    pure ((bc.setHash cellIndex (Vector.ofFn fun i => hash.getD i.val 0)).setDepth cellIndex depth)
  else do
    let d2 ← cell.getD2
    let dataSize ← cell.getDataSize
    let data ← loadCellData cell cellIndex dataSize bc
    let (refs, refsCount) ← cell.getRefs
    validate (refsCount ≤ maxReferencesCount) .invalidCell
    let buffer := [UInt8.ofNat (d1.toNat &&& 0b00011111), d2] ++ data
    let (bc, buffer) ← hashDepths refs cellIndex refsCount 0 bc buffer
    let buffer ← hashHashes refs bc refsCount 0 buffer
    pure (bc.setHash cellIndex (sdk.sha256 buffer))

end EverscaleLedger.Source
