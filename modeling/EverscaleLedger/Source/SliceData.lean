import EverscaleLedger.Source.Cell

/-! `slice_data.c`: a bit cursor over the data of a cell. -/
namespace EverscaleLedger.Source

/-- `leading_zeros` of `utils.c`, on a 16-bit value. -/
def leadingZeros (value : Nat) : Nat :=
  ((List.range 16).takeWhile fun i => !(value <<< i).testBit 15).length

/-- `data` is what the slice may touch: the bytes it was told about, as far as
they exist. An access outside of them is a `fault`. -/
structure SliceData where
  data : List UInt8
  dataWindowStart : Nat
  dataWindowEnd : Nat
  dataSizeBytes : Nat

namespace SliceData

def init (data : List UInt8) (dataSizeBytes : Nat) : SliceData where
  data := data.take dataSizeBytes
  dataWindowStart := 0
  dataWindowEnd := (dataSizeBytes * 8) % 2 ^ 16
  dataSizeBytes := dataSizeBytes

def fromCell (cell : Cell) : Outcome SliceData := do
  let cellData ← cell.getData
  let cellDataSize ← cell.getDataSize
  pure (init cellData cellDataSize)

def fill (self : SliceData) (value : UInt8) (dataSizeBytes : Nat) : Outcome SliceData := do
  validate (self.dataSizeBytes ≥ dataSizeBytes) .invalidData
  let data ← storeMany self.data 0 (List.replicate dataSizeBytes value)
  pure { self with data }

def truncate (self : SliceData) (size : Nat) : Outcome SliceData := do
  validate (size ≤ self.dataWindowEnd) .cellUnderflow
  pure { self with dataWindowEnd := size }

def remainingBits (self : SliceData) : Nat := self.dataWindowEnd - self.dataWindowStart

def moveBy (self : SliceData) (offset : Nat) : Outcome SliceData := do
  validate (self.dataWindowStart + offset ≤ self.dataWindowEnd) .cellUnderflow
  pure { self with dataWindowStart := self.dataWindowStart + offset }

def getBits (self : SliceData) (offset bits : Nat) : Outcome Nat := do
  validate (offset + bits ≤ self.remainingBits) .cellUnderflow
  validate (bits ≠ 0 ∧ bits ≤ 8) .rangeCheck
  let index := self.dataWindowStart + offset
  let q := (index / 8) % 256
  let r := index % 8
  if r = 0 then do
    let byte ← load self.data q
    pure (byte.toNat >>> (8 - r - bits))
  else if bits ≤ 8 - r then do
    let byte ← load self.data q
    pure ((byte.toNat >>> (8 - r - bits)) &&& ((1 <<< bits) - 1))
  else do
    let high ← (if q < self.dataSizeBytes then load self.data q else pure 0)
    let low ← (if q + 1 < self.dataSizeBytes then load self.data (q + 1) else pure 0)
    let ret := (high.toNat <<< 8) ||| low.toNat
    pure (((ret >>> (8 - r)) >>> (8 - bits)) % 256)

def getNextBit (self : SliceData) : Outcome (Nat × SliceData) := do
  let bit ← self.getBits 0 1
  let self ← self.moveBy 1
  pure (bit, self)

def getByte (self : SliceData) (offset : Nat) : Outcome Nat := self.getBits offset 8

def getNextByte (self : SliceData) : Outcome (Nat × SliceData) := do
  let value ← self.getByte 0
  let self ← self.moveBy 8
  pure (value, self)

/-- The whole bytes of `SliceData_get_int`, into a 64-bit accumulator. -/
def getIntBytes (self : SliceData) (bytes : Nat) : Outcome Nat :=
  (List.range bytes).foldlM (fun value i => do
    let byte ← self.getByte (8 * i)
    pure (value ||| (byte <<< (8 * (7 - i))) % 2 ^ 64)) 0

def getInt (self : SliceData) (bits : Nat) : Outcome Nat := do
  validate (bits ≤ self.remainingBits) .cellUnderflow
  validate (bits ≤ 64) .rangeCheck
  if bits = 0 then pure 0
  else do
    let bytes := bits / 8
    let value ← self.getIntBytes bytes
    let remainder := bits % 8
    if remainder ≠ 0 then do
      let r ← self.getBits (bytes * 8) remainder
      let value := value ||| (r <<< (8 * (7 - bytes) + (8 - remainder))) % 2 ^ 64
      pure (value >>> (64 - bits))
    else pure (value >>> (64 - bits))

def getNextInt (self : SliceData) (bits : Nat) : Outcome (Nat × SliceData) := do
  let value ← self.getInt bits
  let self ← self.moveBy bits
  pure (value, self)

def getNextSize (self : SliceData) (maxValue : Nat) : Outcome (Nat × SliceData) :=
  if maxValue = 0 then pure (0, self)
  else self.getNextInt (16 - leadingZeros maxValue)

def isEmpty (self : SliceData) : Bool := self.dataWindowStart ≥ self.dataWindowEnd

def equal (self other : SliceData) : Outcome Bool :=
  let selfRb := self.remainingBits
  let otherRb := other.remainingBits
  if selfRb ≠ otherRb then pure false
  else do
    let left ← self.getInt (selfRb % 256)
    let right ← other.getInt (otherRb % 256)
    pure (left == right)

abbrev getCursor (self : SliceData) : Nat := self.dataWindowStart

/-- The loop of `SliceData_append` off a byte boundary: `count` bytes are left,
starting with number `j`; `prev` holds the bits that the last byte spilled. -/
def appendBytes (input : List UInt8) (appendTag : Bool) (shift firstDataByte bytes : Nat) :
    (count j prev : Nat) → (bits : Nat) → SliceData → Outcome (Nat × SliceData)
  | 0, _, _, bits, self => pure (bits, self)
  | count + 1, j, prev, bits, self => do
      let i := firstDataByte + j
      validate (i < self.dataSizeBytes) .invalidData
      let byte ← load input j
      let cur := byte.toNat >>> shift
      let first ← (if j = 0 then do
          let old ← load self.data i
          pure ((old.toNat >>> (8 - shift)) <<< (8 - shift))
        else pure prev)
      let data ← store self.data i (UInt8.ofNat (first ||| cur))
      let prev := (byte.toNat <<< (8 - shift)) % 256
      if j = bytes - 1 then do
        let lastByte := if appendTag then ((prev >>> (7 - shift)) ||| 1) <<< (7 - shift) else prev
        let bits := if appendTag then bits + (8 - shift) else bits
        let data ← store data (i + 1) (UInt8.ofNat lastByte)
        appendBytes input appendTag shift firstDataByte bytes count (j + 1) prev bits
          { self with data }
      else
        appendBytes input appendTag shift firstDataByte bytes count (j + 1) prev bits
          { self with data }

def append (self : SliceData) (input : List UInt8) (bits : Nat) (appendTag : Bool) :
    Outcome SliceData := do
  let bytes := (bits / 8) % 256
  validate (bytes ≤ self.remainingBits * 8) .cellUnderflow
  let offset := self.dataWindowStart
  if offset % 8 = 0 ∨ bytes = 0 then do
    let block ← loadMany input (if bytes ≠ 0 then bytes else 1)
    let data ← storeMany self.data (offset / 8) block
    pure { self with data, dataWindowStart := (offset + bits) % 2 ^ 16 }
  else do
    let (bits, self) ← appendBytes input appendTag (offset % 8) ((offset / 8) % 256) bytes
      bytes 0 0 bits self
    pure { self with dataWindowStart := (offset + bits) % 2 ^ 16 }

end SliceData
end EverscaleLedger.Source
