import EverscaleLedger.Source.Errors

/-! `byte_stream.c`: a cursor over the received bytes. -/
namespace EverscaleLedger.Source

/-- Big-endian value of a byte string: `readUint16BE`, `readUint32BE` and
`readUint64BE` of `utils.c` at the lengths 2, 4 and 8. -/
def readUintBE (buffer : List UInt8) : Nat :=
  buffer.foldl (fun value byte => value * 256 + byte.toNat) 0

/-- `data` is the received buffer, so `data_size` is its length. The cursor
never passes the end, which makes the unsigned remainder of the source exact. -/
structure ByteStream where
  data : List UInt8
  offset : Nat
  offset_le : offset ≤ data.length

namespace ByteStream

abbrev dataSize (self : ByteStream) : Nat := self.data.length

def init (data : List UInt8) : Outcome ByteStream := do
  validate (data.length ≠ 0) .endOfStream
  pure ⟨data, 0, Nat.zero_le _⟩

def getCursor (self : ByteStream) : List UInt8 := self.data.drop self.offset

def getLength (self : ByteStream) : Nat := self.dataSize - self.offset

def moveBy (self : ByteStream) (count : Nat) (h : count ≤ self.getLength) : ByteStream :=
  ⟨self.data, self.offset + count, by
    have := self.offset_le
    simp only [getLength, dataSize] at h
    omega⟩

def readData (self : ByteStream) (count : Nat) : Outcome (List UInt8 × ByteStream) :=
  if h : count ≤ self.getLength then
    .ok (self.getCursor.take count, self.moveBy count h)
  else .error (.thrown .endOfStream)

def readByte (self : ByteStream) : Outcome (UInt8 × ByteStream) := do
  let (bytes, self) ← self.readData 1
  let byte ← load bytes 0
  pure (byte, self)

/-- Widths of three and of five to seven bytes are read through the next
larger helper, yet the cursor moves by the width asked for. -/
def fieldWidth (bytes : Nat) : Nat :=
  if bytes ≤ 1 then 1 else if bytes ≤ 2 then 2 else if bytes ≤ 4 then 4 else 8

def readUint (self : ByteStream) (bytes : Nat) : Outcome (Nat × ByteStream) :=
  if h : (0 < bytes ∧ bytes ≤ 8) ∧ fieldWidth bytes ≤ self.getLength then
    .ok (readUintBE (self.getCursor.take (fieldWidth bytes)), self.moveBy bytes (by
      have hwidth : bytes ≤ fieldWidth bytes := by
        unfold fieldWidth
        split_ifs <;> omega
      omega))
  else .error (.thrown .endOfStream)

end ByteStream
end EverscaleLedger.Source
