import Mathlib

/-! SHA-256 on byte lists, with 32-bit words kept as naturals below `2 ^ 32`.
Every definition is structurally recursive, so that the kernel evaluates it. -/
namespace EverscaleLedger.Library.Sha256

def word (value : Nat) : Nat := value % 2 ^ 32

/-- Two copies of a word in a row: every rotation of it is a shift of these. -/
def twice (x : Nat) : Nat := x * (2 ^ 32 + 1)

def bigSigma0 (x : Nat) : Nat := word (twice x >>> 2 ^^^ twice x >>> 13 ^^^ twice x >>> 22)
def bigSigma1 (x : Nat) : Nat := word (twice x >>> 6 ^^^ twice x >>> 11 ^^^ twice x >>> 25)
def smallSigma0 (x : Nat) : Nat := word (twice x >>> 7 ^^^ twice x >>> 18 ^^^ x >>> 3)
def smallSigma1 (x : Nat) : Nat := word (twice x >>> 17 ^^^ twice x >>> 19 ^^^ x >>> 10)
def choose (e f g : Nat) : Nat := g ^^^ (e &&& (f ^^^ g))
def majority (a b c : Nat) : Nat := (a &&& b) ^^^ (c &&& (a ^^^ b))

def roundConstants : List Nat := [
  0x428a2f98, 0x71374491, 0xb5c0fbcf, 0xe9b5dba5, 0x3956c25b, 0x59f111f1, 0x923f82a4, 0xab1c5ed5,
  0xd807aa98, 0x12835b01, 0x243185be, 0x550c7dc3, 0x72be5d74, 0x80deb1fe, 0x9bdc06a7, 0xc19bf174,
  0xe49b69c1, 0xefbe4786, 0x0fc19dc6, 0x240ca1cc, 0x2de92c6f, 0x4a7484aa, 0x5cb0a9dc, 0x76f988da,
  0x983e5152, 0xa831c66d, 0xb00327c8, 0xbf597fc7, 0xc6e00bf3, 0xd5a79147, 0x06ca6351, 0x14292967,
  0x27b70a85, 0x2e1b2138, 0x4d2c6dfc, 0x53380d13, 0x650a7354, 0x766a0abb, 0x81c2c92e, 0x92722c85,
  0xa2bfe8a1, 0xa81a664b, 0xc24b8b70, 0xc76c51a3, 0xd192e819, 0xd6990624, 0xf40e3585, 0x106aa070,
  0x19a4c116, 0x1e376c08, 0x2748774c, 0x34b0bcb5, 0x391c0cb3, 0x4ed8aa4a, 0x5b9cca4f, 0x682e6ff3,
  0x748f82ee, 0x78a5636f, 0x84c87814, 0x8cc70208, 0x90befffa, 0xa4506ceb, 0xbef9a3f7, 0xc67178f2]

structure State where
  (a b c d e f g h : Nat)

def initial : State :=
  ⟨0x6a09e667, 0xbb67ae85, 0x3c6ef372, 0xa54ff53a, 0x510e527f, 0x9b05688c, 0x1f83d9ab, 0x5be0cd19⟩

def State.round (s : State) (summand : Nat) : State :=
  let t1 := s.h + bigSigma1 s.e + choose s.e s.f s.g + summand
  let t2 := bigSigma0 s.a + majority s.a s.b s.c
  ⟨word (t1 + t2), s.a, s.b, s.c, word (s.d + t1), s.e, s.f, s.g⟩

def State.add (s t : State) : State :=
  ⟨word (s.a + t.a), word (s.b + t.b), word (s.c + t.c), word (s.d + t.d),
    word (s.e + t.e), word (s.f + t.f), word (s.g + t.g), word (s.h + t.h)⟩

/-- The message schedule is a number, of which the last sixteen words are in use. -/
def scheduled (window index : Nat) : Nat := word (window >>> (32 * (15 - index)))

def scheduleNext (window : Nat) : Nat :=
  word (smallSigma1 (scheduled window 14) + scheduled window 9 +
    smallSigma0 (scheduled window 1) + scheduled window 0)

def rounds : List Nat → Nat → State → State
  | [], _, s => s
  | constant :: constants, window, s =>
      rounds constants (window <<< 32 ||| scheduleNext window)
        (s.round (constant + scheduled window 0))

def compress (s : State) (block : Nat) : State :=
  s.add (rounds roundConstants block s)

/-- Big-endian encoding in `width` bytes. -/
def bigEndian (width value : Nat) : List UInt8 :=
  (List.range width).map fun i => UInt8.ofNat (value >>> (8 * (width - 1 - i)))

def numberOf (bytes : List UInt8) : Nat := bytes.foldl (fun n x => n * 256 + x.toNat) 0

/-- Cut a list into blocks of 64; `fuel` bounds their number. -/
def blocks : Nat → List UInt8 → List (List UInt8)
  | 0, _ => []
  | fuel + 1, bytes =>
      if bytes.isEmpty then [] else bytes.take 64 :: blocks fuel (bytes.drop 64)

def pad (message : List UInt8) : List UInt8 :=
  message ++ 0x80 :: List.replicate ((119 - message.length % 64) % 64) 0 ++
    bigEndian 8 (8 * message.length)

def State.bytes (s : State) : Vector UInt8 32 :=
  let value := [s.a, s.b, s.c, s.d, s.e, s.f, s.g, s.h].foldl (fun n x => n <<< 32 ||| x) 0
  Vector.ofFn fun i => UInt8.ofNat (value >>> (8 * (31 - i.val)))

def digest (message : List UInt8) : Vector UInt8 32 :=
  let padded := pad message
  (((blocks padded.length padded).map numberOf).foldl compress initial).bytes

example : (digest [0x61, 0x62, 0x63]).toList = bigEndian 32
    0xba7816bf8f01cfea414140de5dae2223b00361a396177a9cb410ff61f20015ad := by decide +kernel

end EverscaleLedger.Library.Sha256
