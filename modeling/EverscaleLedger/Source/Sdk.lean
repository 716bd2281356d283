import EverscaleLedger.Source.Errors

/-! What the application uses of the device SDK, which is not part of the
repository. -/
namespace EverscaleLedger.Source

abbrev Hash := Vector UInt8 32

abbrev PrivateKey := List UInt8

/-- `deriveBip32` and `initPrivateKey` are the two steps of `get_private_key`,
`generatePair` returns the 65 bytes `W` of a public key, and `eddsaSign` is
`cx_eddsa_sign_no_throw`. They fail with `none`. `format_hex` writes two
printable characters for each byte. -/
structure Sdk where
  sha256 : List UInt8 → Hash
  deriveBip32 : List Nat → Option (List UInt8)
  initPrivateKey : List UInt8 → Option PrivateKey
  generatePair : PrivateKey → Option (Vector UInt8 65)
  eddsaSign : PrivateKey → List UInt8 → Option (Vector UInt8 64)
  formatHex : List UInt8 → List UInt8
  formatHex_length : ∀ input, (formatHex input).length = 2 * input.length
  formatHex_ne_zero : ∀ input, ∀ c ∈ formatHex input, c ≠ 0

end EverscaleLedger.Source
