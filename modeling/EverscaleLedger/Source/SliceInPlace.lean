import EverscaleLedger.Library.InPlace
import EverscaleLedger.Source.SliceData

/-! `slice_data.c` on the caller's slice: the functions that write to `self`, with what
they have changed by the time they throw. -/
namespace EverscaleLedger.Source

open Library.InPlace

/-- `self`, and how many bytes have been written through `self->data`. -/
structure SliceState where
  slice : SliceData
  stores : Nat

abbrev InPlace := EStateM Abort SliceState

namespace SliceData

def moveByInPlace (offset : Nat) : InPlace Unit := do
  let s ← get
  lift (validate (s.slice.dataWindowStart + offset ≤ s.slice.dataWindowEnd) .cellUnderflow)
  set { s with slice := { s.slice with dataWindowStart := s.slice.dataWindowStart + offset } }

def getNextIntInPlace (bits : Nat) : InPlace Nat := do
  let s ← get
  let value ← lift (s.slice.getInt bits)
  moveByInPlace bits
  pure value

/-- `self->data[index] = value` -/
def storeInPlace (index : Nat) (value : UInt8) : InPlace Unit := do
  let s ← get
  let data ← lift (store s.slice.data index value)
  set (⟨{ s.slice with data }, s.stores + 1⟩ : SliceState)

/-- The loop of `SliceData_append` off a byte boundary. -/
def appendBytesInPlace (input : List UInt8) (appendTag : Bool) (shift firstDataByte bytes : Nat) :
    (count j prev : Nat) → (bits : Nat) → InPlace Nat
  | 0, _, _, bits => pure bits
  | count + 1, j, prev, bits => do
      let i := firstDataByte + j
      let s ← get
      lift (validate (i < s.slice.dataSizeBytes) .invalidData)
      let byte ← lift (load input j)
      let cur := byte.toNat >>> shift
      let first ← lift (if j = 0 then do
          let old ← load s.slice.data i
          pure ((old.toNat >>> (8 - shift)) <<< (8 - shift))
        else pure prev)
      storeInPlace i (UInt8.ofNat (first ||| cur))
      let prev := (byte.toNat <<< (8 - shift)) % 256
      if j = bytes - 1 then do
        let lastByte := if appendTag then ((prev >>> (7 - shift)) ||| 1) <<< (7 - shift) else prev
        let bits := if appendTag then bits + (8 - shift) else bits
        storeInPlace (i + 1) (UInt8.ofNat lastByte)
        appendBytesInPlace input appendTag shift firstDataByte bytes count (j + 1) prev bits
      else appendBytesInPlace input appendTag shift firstDataByte bytes count (j + 1) prev bits

def advanceInPlace (bits : Nat) : InPlace Unit := do
  let s ← get
  set { s with slice := { s.slice with
    dataWindowStart := (s.slice.dataWindowStart + bits) % 2 ^ 16 } }

def appendInPlace (input : List UInt8) (bits : Nat) (appendTag : Bool) : InPlace Unit := do
  let bytes := (bits / 8) % 256
  let s ← get
  lift (validate (bytes ≤ s.slice.remainingBits * 8) .cellUnderflow)
  let offset := s.slice.dataWindowStart
  if offset % 8 = 0 ∨ bytes = 0 then do
    let block ← lift (loadMany input (if bytes ≠ 0 then bytes else 1))
    let data ← lift (storeMany s.slice.data (offset / 8) block)
    set (⟨{ s.slice with data }, s.stores + block.length⟩ : SliceState)
    advanceInPlace bits
  else do
    let bits ← appendBytesInPlace input appendTag (offset % 8) ((offset / 8) % 256) bytes
      bytes 0 0 bits
    advanceInPlace bits

end SliceData
end EverscaleLedger.Source
