import EverscaleLedger.Library.Checked

/-! `errors.h`, and the two ways a call can end without a result. -/
namespace EverscaleLedger.Source

/-- The status words that the modelled code sends or throws. -/
inductive Err where
  | invalidData
  | cellUnderflow
  | rangeCheck
  | wrongLabel
  | invalidFlag
  | endOfStream
  | sliceIsEmpty
  | invalidKey
  | cellIsEmpty
  | invalidCellIndex
  | invalidRequest
  | invalidFunctionId
  | invalidWalletType
  | tickerLength
  | invalidCell
  | invalidContract
  | invalidMessage
  | signingFailed
  | wrongDataLength
  | claNotSupported
  | wrongP1P2
  | insNotSupported
  | noData
  | getPublicKeyFailed
  | userRejected
deriving DecidableEq

def Err.statusWord : Err → Nat
  | .invalidData => 0x6B00
  | .cellUnderflow => 0x6B01
  | .rangeCheck => 0x6B02
  | .wrongLabel => 0x6B03
  | .invalidFlag => 0x6B04
  | .endOfStream => 0x6B05
  | .sliceIsEmpty => 0x6B06
  | .invalidKey => 0x6B07
  | .cellIsEmpty => 0x6B08
  | .invalidCellIndex => 0x6B10
  | .invalidRequest => 0x6B11
  | .invalidFunctionId => 0x6B12
  | .invalidWalletType => 0x6B15
  | .tickerLength => 0x6B16
  | .invalidCell => 0x6B17
  | .invalidContract => 0x6B18
  | .invalidMessage => 0x6B19
  | .signingFailed => 0x6B20
  | .wrongDataLength => 0x6B24
  | .claNotSupported => 0x6B25
  | .wrongP1P2 => 0x6B26
  | .insNotSupported => 0x6B27
  | .noData => 0x6B28
  | .getPublicKeyFailed => 0x6B29
  | .userRejected => 0x6985

def success : Nat := 0x9000

/-- `THROW` carries a status word. A `fault` is an access outside the object a
pointer points into: C gives the run no meaning from there on. -/
inductive Abort where
  | thrown (error : Err)
  | fault
deriving DecidableEq

abbrev Outcome := Except Abort

/-- The macro `VALIDATE`. -/
abbrev validate (condition : Prop) [Decidable condition] (error : Err) : Outcome Unit :=
  Library.require (.thrown error) condition

/-- Read through a pointer, given as the bytes from it to the end of its object. -/
abbrev load (pointer : List UInt8) (index : Nat) : Outcome UInt8 :=
  Library.readAt .fault pointer index

/-- The source side of `memcpy`. -/
abbrev loadMany (pointer : List UInt8) (count : Nat) : Outcome (List UInt8) :=
  Library.readMany .fault pointer count

abbrev store (object : List UInt8) (index : Nat) (value : UInt8) : Outcome (List UInt8) :=
  Library.writeAt .fault object index value

/-- The destination side of `memcpy`. -/
abbrev storeMany (object : List UInt8) (start : Nat) (block : List UInt8) :
    Outcome (List UInt8) :=
  Library.writeMany .fault object start block

section

variable {condition : Prop} [Decidable condition] {error : Err}

theorem validate_eq_ok {result : Unit} :
    validate condition error = .ok result ↔ condition := Library.require_eq_ok

theorem validate_of_true (h : condition) : validate condition error = .ok () :=
  Library.require_of_true h

end

theorem load_eq_ok {pointer : List UInt8} {index : Nat} {result : UInt8} :
    load pointer index = .ok result ↔ pointer[index]? = some result := Library.readAt_eq_ok

theorem load_of_drop {pointer rest : List UInt8} {index : Nat} {value : UInt8}
    (h : pointer.drop index = value :: rest) :
    load pointer index = .ok value ∧ pointer.drop (index + 1) = rest := by
  rw [load_eq_ok]
  exact Library.drop_eq_cons h

theorem loadMany_eq_ok {pointer result : List UInt8} {count : Nat} :
    loadMany pointer count = .ok result ↔
      count ≤ pointer.length ∧ pointer.take count = result := Library.readMany_eq_ok

theorem store_eq_ok {object result : List UInt8} {index : Nat} {value : UInt8} :
    store object index value = .ok result ↔
      index < object.length ∧ object.set index value = result := Library.writeAt_eq_ok

theorem storeMany_eq_ok {object block result : List UInt8} {start : Nat} :
    storeMany object start block = .ok result ↔
      start + block.length ≤ object.length ∧
        object.take start ++ block ++ object.drop (start + block.length) = result :=
  Library.writeMany_eq_ok

end EverscaleLedger.Source
