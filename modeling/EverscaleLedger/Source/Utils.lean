import EverscaleLedger.Source.Sdk

/-! `utils.c`: key derivation, integer encodings and the rendering of amounts. -/
namespace EverscaleLedger.Source

def hardenedOffset : Nat := 0x80000000

def getPrivateKey (sdk : Sdk) (accountNumber : Nat) : Option PrivateKey := do
  let derivePath := [44 ||| hardenedOffset, 396 ||| hardenedOffset,
    accountNumber ||| hardenedOffset, 0 ||| hardenedOffset, 0 ||| hardenedOffset]
  let privateKeyData ← sdk.deriveBip32 derivePath
  sdk.initPrivateKey (privateKeyData.take 32)

/-- The 32 bytes are the second coordinate reversed, with the parity of the
first one in the top bit of the last byte. -/
def getPublicKey (sdk : Sdk) (accountNumber : Nat) : Option Hash := do
  let privateKey ← getPrivateKey sdk accountNumber
  let w ← sdk.generatePair privateKey
  let key : Hash := Vector.ofFn fun i => w[64 - i.val]
  if w[32] &&& 1 ≠ 0 then some (key.set 31 (key[31] ||| 0x80)) else some key

/-- `writeUint32BE` and `writeUint64BE` are the widths four and eight. -/
def writeUintBE (width value : Nat) : List UInt8 :=
  (List.range width).map fun i => UInt8.ofNat (value >>> (8 * (width - 1 - i)))

def ascii (text : List Char) : List UInt8 := text.map fun c => UInt8.ofNat c.toNat

def scratchSize : Nat := 37

/-- The decimal digits under conversion, most significant first. Digits in front
of `smin` have not been reached yet. -/
structure Scratch where
  digits : List Nat
  smin : Nat

/-- One shift of the double-dabble loop, by the bit `shiftedIn`. -/
def Scratch.shift (s : Scratch) (shiftedIn : Nat) : Outcome Scratch := do
  let adjusted := s.digits.mapIdx fun k digit =>
    if s.smin ≤ k ∧ digit ≥ 5 then digit + 3 else digit
  let smin ← (if adjusted.getD s.smin 0 ≥ 8 then do
      validate (s.smin > 1) .invalidData
      pure (s.smin - 1)
    else pure s.smin)
  let doubled := adjusted.mapIdx fun k digit =>
    if smin ≤ k then
      ((digit <<< 1) &&& 0xF) |||
        if k + 1 < scratchSize then (if adjusted.getD (k + 1) 0 ≥ 8 then 1 else 0) else shiftedIn
    else digit
  pure ⟨doubled, smin⟩

def Scratch.shiftByte (s : Scratch) (byte : UInt8) : Outcome Scratch :=
  (List.range 8).foldlM (fun s j => s.shift (if byte.toNat &&& (1 <<< (7 - j)) ≠ 0 then 1 else 0)) s

/-- A character is appended to the output, which has room for `outSize` of them. -/
def putChar (outSize : Nat) (out : List UInt8) (c : Nat) : Outcome (List UInt8) :=
  if out.length < outSize then .ok (out ++ [UInt8.ofNat c]) else .error .fault

/-- `scratch[index]` -/
def Scratch.digit (s : Scratch) (index : Nat) : Outcome Nat :=
  Library.readAt .fault s.digits index

/-- The integer part: `count` digits are left, from `offset` on. -/
def integerDigits (s : Scratch) (outSize : Nat) :
    (count : Nat) → (offset : Nat) → (nonZero : Bool) → List UInt8 → Outcome (Nat × List UInt8)
  | 0, offset, _, out => pure (offset, out)
  | count + 1, offset, nonZero, out => do
      let digit ← s.digit offset
      if ¬ nonZero ∧ digit = 0 then integerDigits s outSize count (offset + 1) nonZero out
      else do
        let out ← putChar outSize out (digit + '0'.toNat)
        integerDigits s outSize count (offset + 1) true out

/-- Whether the digits from `index` on, `count` of them, are all zero. -/
def allZero (s : Scratch) : (count : Nat) → (index : Nat) → Outcome Bool
  | 0, _ => pure true
  | count + 1, index => do
      let digit ← s.digit index
      if digit ≠ 0 then pure false else allZero s count (index + 1)

/-- The fraction: `count` digits are left, from `offset` on. -/
def fractionDigits (s : Scratch) (outSize : Nat) :
    (count : Nat) → (offset : Nat) → (comma : Bool) → List UInt8 → Outcome (List UInt8)
  | 0, _, _, out => pure out
  | count + 1, offset, comma, out => do
      if ← allZero s (count + 1) offset then pure out
      else do
        let out ← (if comma then pure out else putChar outSize out '.'.toNat)
        let digit ← s.digit offset
        let out ← putChar outSize out (digit + '0'.toNat)
        fractionDigits s outSize count (offset + 1) true out

/-- The text that is written to `out`, of which there are `outSize` bytes. -/
def convertHexAmountToDisplayable (amount : List UInt8) (decimals amountLength outSize : Nat) :
    Outcome (List UInt8) := do
  let loop1 := (scratchSize + 256 - decimals) % 256
  let loop2 := decimals
  let bytes ← loadMany amount amountLength
  let scratch ← bytes.foldlM Scratch.shiftByte ⟨List.replicate scratchSize 0, scratchSize - 2⟩
  let (offset, out) ← integerDigits scratch outSize loop1 0 false []
  let out ← (if out.length = 0 then putChar outSize out '0'.toNat else pure out)
  fractionDigits scratch outSize loop2 offset false out

end EverscaleLedger.Source
