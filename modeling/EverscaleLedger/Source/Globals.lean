import EverscaleLedger.Library.Memory
import EverscaleLedger.Source.Cell
import EverscaleLedger.Source.Sdk

/-! `globals.h`: the two global contexts. `boc_context` is a record of tables;
`data_context` is a union, kept as the bytes that its four members share. -/
namespace EverscaleLedger.Source

open Library (Field Memory)

def publicKeyLength : Nat := 32
def addressLength : Nat := 32
def transactionIdLength : Nat := 8
def amountLength : Nat := 16
def toSignLength : Nat := 32
def signMagicLength : Nat := 4
def chainIdLength : Nat := 4
def signatureLength : Nat := 64
def hashSize : Nat := 32
def maxRootsCount : Nat := 1
def maxTickerLen : Nat := 10
def maxDataLen : Nat := 1024
def walletId : Nat := 0x4BA92D8A
def maxContractCellsCount : Nat := 16
def maxPublicKeyCellDataSize : Nat := 36
def flagWithWalletId : Nat := 0x01
def flagWithWorkchainId : Nat := 0x02
def flagWithAddress : Nat := 0x04
def flagWithChainId : Nat := 0x08

/-- The tables have `maxContractCellsCount` entries. An index is checked against
that bound, by the source or by `slot`, before an entry is used. -/
structure BocContext where
  cells : Nat → Cell
  hashes : Nat → Hash
  cellDepth : Nat → UInt8
  publicKeyCellData : List UInt8
  cellsCount : Nat
  publicKeyCellIndex : Nat
  publicKeyLabelSizeBits : Nat

def zeroHash : Hash := Vector.replicate 32 0

namespace BocContext

/-- `memset(&boc_context, 0, sizeof(boc_context))` -/
def zero : BocContext where
  cells := fun _ => Cell.null
  hashes := fun _ => zeroHash
  cellDepth := fun _ => 0
  publicKeyCellData := List.replicate maxPublicKeyCellDataSize 0
  cellsCount := 0
  publicKeyCellIndex := 0
  publicKeyLabelSizeBits := 0

/-- An index into one of the tables. -/
def slot (index : Nat) : Outcome Nat :=
  if index < maxContractCellsCount then .ok index else .error .fault

def setCell (bc : BocContext) (index : Nat) (cell : Cell) : BocContext :=
  { bc with cells := Function.update bc.cells index cell }

def setHash (bc : BocContext) (index : Nat) (hash : Hash) : BocContext :=
  { bc with hashes := Function.update bc.hashes index hash }

def setDepth (bc : BocContext) (index : Nat) (depth : UInt8) : BocContext :=
  { bc with cellDepth := Function.update bc.cellDepth index depth }

theorem slot_eq_ok {index result : Nat} :
    slot index = .ok result ↔ index < maxContractCellsCount ∧ index = result := by
  unfold slot
  split <;> simp [*]

theorem setDepth_setDepth (bc : BocContext) (index : Nat) (first second : UInt8) :
    (bc.setDepth index first).setDepth index second = bc.setDepth index second := by
  simp [setDepth]

theorem setDepth_self (bc : BocContext) (index : Nat) :
    bc.setDepth index (bc.cellDepth index) = bc := by
  simp [setDepth]

theorem setDepth_cellDepth_of_ne (bc : BocContext) {index other : Nat} (depth : UInt8)
    (h : other ≠ index) : (bc.setDepth index depth).cellDepth other = bc.cellDepth other :=
  Function.update_of_ne h _ _

end BocContext

abbrev DataContext := Memory

/-! The members of `DataContext_t`. Each field follows the previous one at its
own alignment, which is one except for the integers. -/

namespace DataContext.pkContext

def publicKey : Field := ⟨0, publicKeyLength⟩
def publicKeyStr : Field := publicKey.after 65 1

end DataContext.pkContext

namespace DataContext.addrContext

def address : Field := ⟨0, addressLength⟩
def addressStr : Field := address.after 65 1

end DataContext.addrContext

namespace DataContext.signContext

def chainId : Field := ⟨0, chainIdLength⟩
def toSign : Field := chainId.after (signMagicLength + toSignLength) 1
def signature : Field := toSign.after signatureLength 1
def accountNumber : Field := signature.after 4 4
def toSignStr : Field := accountNumber.after 73 1

end DataContext.signContext

namespace DataContext.signTrContext

def signWithChainId : Field := ⟨0, 1⟩
def chainId : Field := signWithChainId.after chainIdLength 1
def toSign : Field := chainId.after (chainIdLength + toSignLength) 1
def signature : Field := toSign.after signatureLength 1
def addressStr : Field := signature.after 70 1
def amountStr : Field := addressStr.after 40 1
def transactionIdStr : Field := amountStr.after 20 1
def accountNumber : Field := transactionIdStr.after 4 4
def originWalletType : Field := accountNumber.after 1 1
def currentWalletType : Field := originWalletType.after 1 1
def decimals : Field := currentWalletType.after 1 1
def address : Field := decimals.after addressLength 1
def prependAddress : Field := address.after addressLength 1
def wc : Field := prependAddress.after 1 1
def data : Field := wc.after maxDataLen 1
def dataOffset : Field := data.after 2 2
def ticker : Field := dataOffset.after maxTickerLen 1

end DataContext.signTrContext

/-- `sizeof(data_context)`: the largest member, padded to the alignment of its integers. -/
def dataContextSize : Nat := 1344

example : DataContext.signTrContext.data = ⟨308, 1024⟩ ∧
    DataContext.signTrContext.ticker = ⟨1334, 10⟩ ∧ dataContextSize = 1334 + 10 ∧
    DataContext.signContext.accountNumber = ⟨104, 4⟩ := by decide

end EverscaleLedger.Source
