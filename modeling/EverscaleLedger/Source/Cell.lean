import EverscaleLedger.Source.ByteStream

/-! The descriptor accessors of `cell.c`. A cell is a pointer into the buffer
that holds it: `cellBegin` is the bytes from there to the end of the buffer. -/
namespace EverscaleLedger.Source

def cellDataOffset : Nat := 2
def maxReferencesCount : Nat := 4
def prunedBranchD1 : UInt8 := 0b00101000
def prunedBranchDataSize : Nat := 36

structure Cell where
  cellBegin : Option (List UInt8)
  cellLength : Nat

/-- The number of data bytes that a second descriptor byte announces. -/
def dataSizeOf (d2 : UInt8) : Nat :=
  (d2.toNat >>> 1) + if d2.toNat &&& 1 ≠ 0 then 1 else 0

/-- The number of references that a first descriptor byte announces. -/
def refsCountOf (d1 : UInt8) : Nat := d1.toNat &&& 7

namespace Cell

/-- What `memset` leaves of a cell. -/
def null : Cell := ⟨none, 0⟩

def init (cellBegin : List UInt8) (cellLength : Nat) : Cell := ⟨some cellBegin, cellLength⟩

/-- `VALIDATE(self && self->cell_begin, ERR_CELL_IS_EMPTY)` -/
def begin (self : Cell) : Outcome (List UInt8) :=
  match self.cellBegin with
  | some bytes => .ok bytes
  | none => .error (.thrown .cellIsEmpty)

def getD1 (self : Cell) : Outcome UInt8 := do
  let bytes ← self.begin
  validate (self.cellLength > 0) .invalidCell
  load bytes 0

def getD2 (self : Cell) : Outcome UInt8 := do
  let bytes ← self.begin
  validate (self.cellLength > 1) .invalidCell
  load bytes 1

def getDataSize (self : Cell) : Outcome Nat := do
  let d2 ← self.getD2
  pure (dataSizeOf d2)

def getData (self : Cell) : Outcome (List UInt8) := do
  let bytes ← self.begin
  pure (bytes.drop cellDataOffset)

/-- The pointer to the reference bytes, and their number. -/
def getRefs (self : Cell) : Outcome (List UInt8 × Nat) := do
  let d1 ← self.getD1
  let dataSize ← self.getDataSize
  let bytes ← self.begin
  pure (bytes.drop (cellDataOffset + dataSize), refsCountOf d1)

/-- One plus the number of zero bits below the completion tag of a byte. -/
def tagSkip (byte : UInt8) : Nat :=
  ((List.range 8).takeWhile fun bit => !byte.toNat.testBit bit).length + 1

/-- The backward scan for the completion tag, over the first `count` bytes. -/
def scanTag (data : List UInt8) : (count : Nat) → (bitLen : Nat) → Outcome Nat
  | 0, bitLen => pure bitLen
  | count + 1, bitLen => do
      let byte ← load data count
      if byte = 0 then scanTag data count (bitLen - 8) else pure (bitLen - tagSkip byte)

def bitLen (self : Cell) : Outcome Nat := do
  let dataSize ← self.getDataSize
  let d2 ← self.getD2
  if d2.toNat &&& 1 = 0 then pure (dataSize * 8)
  else do
    let data ← self.getData
    scanTag data dataSize (dataSize * 8)

/-- The reference loop of `deserialize_cell`: `count` references are left,
starting with number `child`. -/
def checkRefs (self : Cell) (refs : List UInt8) (dataSize cellIndex cellsCount : Nat) :
    (count : Nat) → (child : Nat) → Outcome Unit
  | 0, _ => pure ()
  | count + 1, child => do
      validate (self.cellLength > cellDataOffset + dataSize + child) .invalidCell
      let ref ← load refs child
      validate (ref.toNat ≤ cellsCount ∧ ref.toNat > cellIndex) .invalidCell
      self.checkRefs refs dataSize cellIndex cellsCount count (child + 1)

/-- `deserialize_cell`: checks a cell in place and returns its size in bytes. -/
def deserialize (self : Cell) (cellIndex cellsCount : Nat) : Outcome Nat := do
  let d1 ← self.getD1
  let hashes := d1.toNat &&& 16 = 16
  let exotic := d1.toNat &&& 8 = 8
  let rc := d1.toNat &&& 7
  let absent := rc = 7 ∧ hashes
  let pruned := d1 = prunedBranchD1
  validate (¬ hashes) .invalidCell
  validate (¬ exotic ∨ pruned) .invalidCell
  validate (rc ≤ maxReferencesCount) .invalidCell
  validate (¬ absent) .invalidCell
  let dataSize ← self.getDataSize
  validate (¬ pruned ∨ (pruned ∧ dataSize = prunedBranchDataSize)) .invalidCell
  let (refs, refsCount) ← self.getRefs
  self.checkRefs refs dataSize cellIndex cellsCount refsCount 0
  pure (cellDataOffset + dataSize + refsCount)

end Cell
end EverscaleLedger.Source
