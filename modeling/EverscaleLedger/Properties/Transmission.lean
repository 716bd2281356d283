import EverscaleLedger.Library.Sha256
import EverscaleLedger.Properties.Preparation

/-! Cells on the wire: every admitted list of cells is received as it was sent.
With it come a key pair and a request to run the code on. -/
namespace EverscaleLedger.Properties

open Library Source

theorem RawCell.admitted_iff (c : RawCell) (index announced : Nat) :
    c.Admitted index announced ↔
      (c.d1.toNat &&& 16 ≠ 16 ∧ (c.d1.toNat &&& 8 = 8 → c.Pruned)) ∧
      (refsCountOf c.d1 ≤ maxReferencesCount ∧ (c.Pruned → c.data.length = prunedBranchDataSize)) ∧
      ∀ r ∈ c.refs, index < r.toNat ∧ r.toNat ≤ announced :=
  ⟨fun h => ⟨⟨h.no_hashes, h.exotic_pruned⟩, ⟨h.refs_le, h.pruned_size⟩, h.refs_bound⟩,
    fun h => ⟨h.1.1, h.1.2, h.2.1.1, h.2.1.2, h.2.2⟩⟩

instance (c : RawCell) (index announced : Nat) : Decidable (c.Admitted index announced) :=
  decidable_of_iff' _ (c.admitted_iff index announced)

theorem admittedFrom_iff (i announced : Nat) (cells : List RawCell) :
    AdmittedFrom i announced cells ↔
      ∀ k : Fin cells.length, (cells.get k).Admitted (i + k) announced := by
  constructor
  · intro h k
    exact h k _ (List.getElem?_eq_getElem k.isLt)
  · intro h k c hc
    obtain ⟨hk, rfl⟩ := List.getElem?_eq_some_iff.mp hc
    exact h ⟨k, hk⟩

instance (i announced : Nat) (cells : List RawCell) : Decidable (AdmittedFrom i announced cells) :=
  decidable_of_iff' _ (admittedFrom_iff i announced cells)

theorem start_le (data : List UInt8) : 0 ≤ data.length := Nat.zero_le _

/-- A received byte string, read from its start. -/
def received (data : List UInt8) : ByteStream := ⟨data, 0, start_le data⟩

/-- The byte string for a list of cells, with the number that it announces. -/
def serialize (header : BocHeader) (announced : UInt8) (cells : List RawCell) : List UInt8 :=
  header.bytes announced ++ serializeCells cells

theorem exists_reception_of_cells (header : BocHeader) (announced : UInt8)
    (cells : List RawCell) (bc : BocContext)
    (hadmitted : AdmittedFrom 0 announced.toNat cells)
    (hcomplete : cells ≠ [] ∧ cells.length ≤ announced.toNat)
    (hbound : cells.length ≤ maxContractCellsCount) :
    ∃ reception : Reception (received (serialize header announced cells)) bc,
      reception.header = header ∧ reception.announced = announced ∧ reception.cells = cells := by
  have hcursor : (received (serialize header announced cells)).getCursor =
      header.bytes announced ++ (serializeCells cells ++ []) := by
    rw [List.append_nil]
    rfl
  obtain ⟨rest, hparse, hrest⟩ := deserializeCellsTree_serialize bc header announced cells []
    hcursor hadmitted (Or.inr ⟨hcomplete.1, hcomplete.2, rfl⟩) hbound
  refine ⟨⟨header, announced, cells, rest, _, hparse, hrest ▸ hcursor, ?_, hadmitted, hbound,
    hcomplete.2, Or.inr hrest⟩, rfl, rfl, rfl⟩
  rw [hrest]

/-- What is sent in front of the cells. -/
def plainHeader : BocHeader where
  flags := 0x01
  offsetSize := 0x01
  absent := 0x00
  totalSize := [0x00]
  rootIndex := 0x00
  noIndex := by decide
  noCrc := by decide
  noCacheBits := by decide
  refSizeOne := by decide
  offsetSizeNeZero := by decide
  offsetSizeLe := by decide
  totalSize_length := by decide

/-! A key pair, with which the code can be run. -/

def hexDigit (value : Nat) : UInt8 := UInt8.ofNat (if value < 10 then 48 + value else 55 + value)

def hexText (input : List UInt8) : List UInt8 :=
  input.flatMap fun byte => [hexDigit (byte.toNat / 16), hexDigit (byte.toNat % 16)]

theorem hexDigit_ne_zero (value : Nat) (h : value < 16) : hexDigit value ≠ 0 := by
  have hall : ∀ digit : Fin 16, hexDigit digit ≠ 0 := by decide
  exact hall ⟨value, h⟩

theorem length_hexText (input : List UInt8) : (hexText input).length = 2 * input.length := by
  induction input with
  | nil => rfl
  | cons byte input ih =>
    simp only [hexText, List.flatMap_cons, List.length_append, List.length_cons] at ih ⊢
    rw [ih, List.length_nil]
    omega

theorem hexText_ne_zero (input : List UInt8) : ∀ c ∈ hexText input, c ≠ 0 := by
  intro c hc
  simp only [hexText, List.mem_flatMap, List.mem_cons, List.not_mem_nil, or_false] at hc
  obtain ⟨byte, -, rfl | rfl⟩ := hc
  · have hlt := byte.toNat_lt
    exact hexDigit_ne_zero _ (by omega)
  · exact hexDigit_ne_zero _ (Nat.mod_lt _ (by decide))

def testPair : Vector UInt8 65 := #v[
  0x04, 0x48, 0x8D, 0x0E, 0x9E, 0x12, 0x40, 0x17, 0xE5, 0x10, 0xFB, 0x6E, 0xA0, 0xB3, 0x81, 0x58,
  0xCA, 0x19, 0xB8, 0xFF, 0x0D, 0x97, 0xC2, 0xB5, 0x2E, 0x35, 0x8D, 0x5F, 0xCC, 0x70, 0x25, 0x7A,
  0x55, 0x04, 0xBF, 0x87, 0x7A, 0x82, 0xCB, 0xD9, 0xB8, 0x9D, 0x2F, 0xE1, 0x14, 0xA1, 0x01, 0xCF,
  0x6E, 0x5F, 0x49, 0x66, 0xEB, 0x92, 0x0E, 0xD6, 0xD2, 0x42, 0x05, 0xAA, 0xCC, 0x4E, 0xF1, 0x99,
  0x30]

/-- SHA-256 and one key pair; a signature is a stand-in for the real one. -/
def testSdk : Sdk where
  sha256 := Sha256.digest
  deriveBip32 _ := some (List.replicate 64 0)
  initPrivateKey data := some data
  generatePair _ := some testPair
  eddsaSign _ _ := some (Vector.replicate 64 0)
  formatHex := hexText
  formatHex_length := length_hexText
  formatHex_ne_zero := hexText_ne_zero

def zeroLocals : Locals :=
  ⟨zeroHash, zeroHash, zeroHash, Vector.replicate cellBufferSize 0⟩

/-- A request without a chain id, for a wallet type. -/
def plainRequest (walletType : UInt8) : SigningRequest where
  ctx := ⟨false, [0, 0, 0, 0], walletType, 9, ascii ['E', 'V', 'E', 'R'] ++ List.replicate 6 0⟩
  wc := 0
  address := List.replicate addressLength 0
  prependAddress := List.replicate addressLength 0

/-- A list of cells, received and run on. -/
theorem exists_run_of_cells {request : SigningRequest} {announced : UInt8} {cells : List RawCell}
    {property : Prepared → Prop} (hadmitted : AdmittedFrom 0 announced.toNat cells)
    (hcomplete : cells ≠ [] ∧ cells.length ≤ announced.toNat)
    (hbound : cells.length ≤ maxContractCellsCount)
    (hrun : Succeeds (request.prepare testSdk zeroLocals BocContext.zero
      (received (serialize plainHeader announced cells))) property) :
    ∃ (reception : Reception (received (serialize plainHeader announced cells)) BocContext.zero)
      (p : Prepared), reception.cells = cells ∧
        request.prepare testSdk zeroLocals BocContext.zero
          (received (serialize plainHeader announced cells)) = .ok p ∧ property p := by
  obtain ⟨reception, -, -, hcells⟩ := exists_reception_of_cells plainHeader announced cells
    BocContext.zero hadmitted hcomplete hbound
  obtain ⟨p, hp, hproperty⟩ := hrun.exists
  exact ⟨reception, p, hcells, hp, hproperty⟩

end EverscaleLedger.Properties
