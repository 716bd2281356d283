import EverscaleLedger.Properties.Confinement
import EverscaleLedger.Properties.Flows
import EverscaleLedger.Properties.PrefixedCell

/-! `cell_buffer` of `prepare_to_sign`: when prefixing the root and hashing the
result stay inside it. -/
namespace EverscaleLedger.Properties

open Library Source Slice

/-- A run of `prepare_to_sign` that has come to `prepend_address_to_cell`. -/
structure ReachesPrefixing (sdk : Sdk) (locals : Locals) (request : SigningRequest) (bc : BocContext)
    (src : ByteStream) (parsed : BocContext) (root : RawCell) : Prop where
  family : request.family = some .prefixedContract
  parse : ∃ next, deserializeCellsTree src bc = .ok (next, parsed)
  count : parsed.cellsCount > rootCellIndex
  received : ∃ rest, Holds (parsed.cells rootCellIndex) root rest
  decode : ∃ decoded, decodeFor sdk locals request parsed root.slice .prefixedContract = .ok decoded

/-- The call throws, or leaves a cell of the size that its descriptor says, inside
the buffer together with all that hashing reads of it. -/
def StaysInBuffer (sdk : Sdk) (root : RawCell) (result : Outcome Cell) : Prop :=
  match result with
  | .error (.thrown _) => True
  | .error .fault => False
  | .ok cell => ∃ (prefixed : RawCell) (tail : List UInt8), Holds cell prefixed tail ∧
      (prefixed.bytes ++ tail).length = cellBufferSize ∧ root.bits.length + 267 ≤ 1023 ∧
      prefixed.d2.toNat = (root.bits.length + 267) / 8 + (root.bits.length + 267 + 7) / 8 ∧
      prefixed.data.length = (root.bits.length + 267 + 7) / 8 ∧
      ∀ tables, calcCellHash sdk cell rootCellIndex tables ≠ .error .fault

/-- Hashing a root in a buffer of its size, whatever the tables. -/
theorem calcCellHash_prefixed {sdk : Sdk} {cell : Cell} {prefixed : RawCell} {tail : List UInt8}
    (h : Holds cell prefixed tail) (hsize : (prefixed.bytes ++ tail).length = cellBufferSize)
    (tables : BocContext) : calcCellHash sdk cell rootCellIndex tables ≠ .error .fault := by
  refine (calcCellHash_inBounds h ⟨by decide, fun _ => ?_, fun hkey => ?_⟩).1
  · have hbytes : (prefixed.bytes ++ tail).length =
        2 + (prefixed.data ++ (prefixed.refs ++ tail)).length := by
      simp [RawCell.bytes]
      omega
    rw [hsize, cellBufferSize] at hbytes
    rw [prunedBranchDataSize]
    omega
  · exact absurd hkey.2.symm hkey.1

section

variable {sdk : Sdk} {locals : Locals} {request : SigningRequest} {bc : BocContext}
  {src : ByteStream} {parsed : BocContext} {root : RawCell}

/-- What parser and header decoder leave of the root for the prefixing. -/
theorem ReachesPrefixing.root_fits (h : ReachesPrefixing sdk locals request bc src parsed root) :
    root.refs.length ≤ maxReferencesCount ∧ root.data ≠ [] := by
  obtain ⟨next, hparse⟩ := h.parse
  obtain ⟨rest, hroot⟩ := h.received
  obtain ⟨decoded, hdecode⟩ := h.decode
  obtain ⟨reception, rfl⟩ := exists_reception hparse
  have hcount := h.count
  rw [reception.parsed_cells.count] at hcount
  obtain ⟨other, hother⟩ :=
    reception.parsed_cells.holds rootCellIndex _ (List.getElem?_eq_getElem hcount)
  obtain rfl := hroot.unique hother
  exact ⟨reception.forward.refs_le _ (List.getElem_mem hcount), decodePrefixedContract_data_ne hdecode⟩

theorem ReachesPrefixing.fault (h : ReachesPrefixing sdk locals request bc src parsed root)
    (haddress : request.prependAddress.length = addressLength)
    (hlong : 94 < root.data.length ∨ 128 < (root.bits.length + 267 + 7) / 8 + root.refs.length) :
    prependAddressToCell locals.cellBuffer.toList (parsed.cells rootCellIndex) request.wc
      request.prependAddress = .error .fault := by
  obtain ⟨rest, hroot⟩ := h.received
  obtain ⟨hrefs, hdata⟩ := h.root_fits
  exact prependAddressToCell_fault hroot (Vector.length_toList ..) haddress hdata root.bitLen_eq hrefs
    hlong

/-- Prefixing stays in the buffer exactly when the data leaves room for the byte
that the shift spills, and the prefixed data for the references. -/
theorem prefixing_in_buffer_iff (h : ReachesPrefixing sdk locals request bc src parsed root)
    (haddress : request.prependAddress.length = addressLength) :
    StaysInBuffer sdk root (prependAddressToCell locals.cellBuffer.toList
        (parsed.cells rootCellIndex) request.wc request.prependAddress) ↔
      root.data.length ≤ 94 ∧ (root.bits.length + 267 + 7) / 8 + root.refs.length ≤ 128 := by
  constructor
  · intro hstays
    by_contra hlong
    rw [h.fault haddress (by omega)] at hstays
    exact hstays
  · rintro ⟨hlength, hroom⟩
    obtain ⟨rest, hroot⟩ := h.received
    obtain ⟨hrefs, hdata⟩ := h.root_fits
    have hbits := root.length_bits_le
    obtain ⟨cell, prefixed, tail, hcell, hholds, hsize, -, -, hd2, hprefixed, -⟩ :=
      prependAddressToCell_root request.wc hroot (Vector.length_toList ..) haddress hdata
        root.bitLen_eq hrefs hlength hroom
    have hmax : root.bits.length + 267 ≤ 1023 := by omega
    rw [hcell]
    refine ⟨prefixed, tail, hholds, hsize, hmax, ?_, hprefixed, calcCellHash_prefixed hholds hsize⟩
    rw [hd2, d2OfBitLen_toNat (Nat.lt_succ_of_le hmax)]

end

/-- A list of cells on which the decoders come to the prefixing. -/
theorem reaches_of_decode {root : RawCell} {cells : List RawCell} {announced : UInt8}
    (hadmitted : AdmittedFrom 0 announced.toNat (root :: cells))
    (hcount : (root :: cells).length = announced.toNat)
    (hbound : (root :: cells).length ≤ maxContractCellsCount)
    (hdecode : Succeeds (do
      let (_, parsed) ← deserializeCellsTree (received (serialize plainHeader announced
        (root :: cells))) BocContext.zero
      decodeFor testSdk zeroLocals (plainRequest 1) parsed root.slice .prefixedContract)
        fun _ => True) :
    ∃ parsed, ReachesPrefixing testSdk zeroLocals (plainRequest 1) BocContext.zero
      (received (serialize plainHeader announced (root :: cells))) parsed root := by
  obtain ⟨reception, -, -, hcells⟩ := exists_reception_of_cells plainHeader announced
    (root :: cells) BocContext.zero hadmitted ⟨nofun, Nat.le_of_eq hcount⟩ hbound
  obtain ⟨decoded, hrun, -⟩ := hdecode.exists
  obtain ⟨⟨next, parsed⟩, hparse, hdecoded⟩ := bind_eq_ok.mp hrun
  obtain rfl := reception.parsed_unique hparse
  have hparsed := reception.parsed_cells
  rw [hcells] at hparsed
  exact ⟨reception.parsed, by decide, ⟨next, hparse⟩, hparsed.count ▸ Nat.succ_pos _,
    hparsed.holds 0 root rfl, decoded, hdecoded⟩

theorem prefixing_in_buffer_deploy :
    ∃ parsed, ReachesPrefixing testSdk zeroLocals (plainRequest 1) BocContext.zero
        (received (serialize plainHeader 0x02 plainDeploy)) parsed deployRoot ∧
      StaysInBuffer testSdk deployRoot (prependAddressToCell zeroLocals.cellBuffer.toList
        (parsed.cells rootCellIndex) 0 zeroHash.toList) := by
  obtain ⟨parsed, hreaches⟩ := @reaches_of_decode deployRoot [deployGift 0x00 [] no_refs] 0x02
    (by decide) (by decide) (by decide) (by decide +kernel)
  exact ⟨parsed, hreaches, (prefixing_in_buffer_iff hreaches (by decide)).mpr (by decide +kernel)⟩

/-- A deployment header, with data behind it. -/
def paddedRoot (d2 : UInt8) (padding refs : List UInt8)
    (hdata : 17 + padding.length = dataSizeOf d2)
    (hrefs : refs.length = refsCountOf (UInt8.ofNat refs.length)) : RawCell where
  d1 := UInt8.ofNat refs.length
  d2 := d2
  data := deployRoot.data ++ padding
  refs := refs
  data_length := by
    rw [← hdata, List.length_append]
    rfl
  refs_length := hrefs

/-- Ninety-five bytes of data. -/
def longRoot : RawCell := paddedRoot 0xBE (List.replicate 78 0) [0x01] (by decide) (by decide)

/-- Ninety-four bytes of data and two references. -/
def crowdedRoot : RawCell :=
  paddedRoot 0xBB (List.replicate 76 0 ++ [0x01]) [0x01, 0x02] (by decide) (by decide)

theorem prefixing_leaves_buffer :
    (∃ parsed, ReachesPrefixing testSdk zeroLocals (plainRequest 1) BocContext.zero
        (received (serialize plainHeader 0x02 [longRoot, deployGift 0x00 [] no_refs])) parsed
          longRoot ∧
      ¬ StaysInBuffer testSdk longRoot (prependAddressToCell zeroLocals.cellBuffer.toList
        (parsed.cells rootCellIndex) 0 zeroHash.toList)) ∧
    ∃ parsed, ReachesPrefixing testSdk zeroLocals (plainRequest 1) BocContext.zero
        (received (serialize plainHeader 0x03 [crowdedRoot, deployGift 0x00 [] no_refs,
          ownersCell])) parsed crowdedRoot ∧
      ¬ StaysInBuffer testSdk crowdedRoot (prependAddressToCell zeroLocals.cellBuffer.toList
        (parsed.cells rootCellIndex) 0 zeroHash.toList) := by
  have hleaves : ∀ {src : ByteStream} {parsed : BocContext} {root : RawCell},
      ReachesPrefixing testSdk zeroLocals (plainRequest 1) BocContext.zero src parsed root →
      94 < root.data.length ∨ 128 < (root.bits.length + 267 + 7) / 8 + root.refs.length →
      ¬ StaysInBuffer testSdk root (prependAddressToCell zeroLocals.cellBuffer.toList
        (parsed.cells rootCellIndex) 0 zeroHash.toList) := by
    intro src parsed root hreaches hlong
    rw [show prependAddressToCell zeroLocals.cellBuffer.toList (parsed.cells rootCellIndex) 0
      zeroHash.toList = .error .fault from hreaches.fault (by decide) hlong]
    exact id
  obtain ⟨long, hlong⟩ := @reaches_of_decode longRoot [deployGift 0x00 [] no_refs] 0x02
    (by decide) (by decide) (by decide) (by decide +kernel)
  obtain ⟨crowded, hcrowded⟩ := @reaches_of_decode crowdedRoot
    [deployGift 0x00 [] no_refs, ownersCell] 0x03
    (by decide) (by decide) (by decide) (by decide +kernel)
  exact ⟨⟨long, hlong, hleaves hlong (by decide)⟩,
    crowded, hcrowded, hleaves hcrowded (by decide +kernel)⟩

end EverscaleLedger.Properties
