import EverscaleLedger.Properties.Representation

/-! Ordinary bags of cells: what is parsed from one is the list of its cells, and
what is hashed is the representation of its first cell. -/
namespace EverscaleLedger.Properties

open Library Source

/-- A list of up to sixteen ordinary cells that point to later cells of the list.
The level bits of a first descriptor byte are free. -/
structure OrdinaryBoc (cells : List RawCell) : Prop where
  length_pos : 0 < cells.length
  length_le : cells.length ≤ maxContractCellsCount
  ordinary : ∀ c ∈ cells, c.d1.toNat &&& 0b00011000 = 0
  refs_le : ∀ c ∈ cells, c.refs.length ≤ maxReferencesCount
  refs : ∀ i : Fin cells.length, ∀ r ∈ cells[i].refs, i < r.toNat ∧ r.toNat < cells.length

/-- What the accessors return on a stored cell. -/
structure StoredAs (cell : Cell) (c : RawCell) : Prop where
  d1 : cell.getD1 = .ok c.d1
  d2 : cell.getD2 = .ok c.d2
  dataSize : cell.getDataSize = .ok c.data.length
  data : ∃ rest, cell.getData = .ok (c.data ++ rest)
  refs : ∃ rest, cell.getRefs = .ok (c.refs ++ rest, c.refs.length)

theorem Holds.storedAs {cell : Cell} {c : RawCell} {rest : List UInt8} (h : Holds cell c rest) :
    StoredAs cell c :=
  ⟨h.getD1, h.getD2, h.getDataSize, ⟨_, h.getData⟩, ⟨_, h.getRefs⟩⟩

namespace OrdinaryBoc

variable {cells : List RawCell} (boc : OrdinaryBoc cells)

include boc

theorem flags {c : RawCell} (h : c ∈ cells) :
    c.d1.toNat &&& 16 = 0 ∧ c.d1.toNat &&& 8 = 0 := by
  have hmask : ∀ bit, 0b00011000 &&& bit = bit → c.d1.toNat &&& bit = 0 := by
    intro bit hbit
    rw [← hbit, ← Nat.and_assoc, boc.ordinary c h, Nat.zero_and]
  exact ⟨hmask 16 rfl, hmask 8 rfl⟩

theorem not_pruned {c : RawCell} (h : c ∈ cells) : ¬ c.Pruned := by
  intro hp
  have hbit := (boc.flags h).2
  rw [show c.d1 = prunedBranchD1 from hp] at hbit
  exact absurd hbit (by decide)

theorem admitted : AdmittedFrom 0 cells.length cells := by
  rw [admittedFrom_iff]
  intro k
  have hmem : cells.get k ∈ cells := List.get_mem ..
  obtain ⟨hhashes, hexotic⟩ := boc.flags hmem
  refine ⟨by omega, fun h => absurd (hexotic.symm.trans h) (by decide), ?_, ?_, fun r hr => ?_⟩
  · rw [← RawCell.refs_length]
    exact boc.refs_le _ hmem
  · exact fun hp => absurd hp (boc.not_pruned hmem)
  · obtain ⟨hlater, hlt⟩ := boc.refs k r hr
    omega

/-- The cells and their references as a graph. -/
def graph : Graph cells.length where
  children i := cells[i].refs.attach.map fun r => ⟨r.val.toNat, (boc.refs i r.val r.property).2⟩
  later i j hj := by
    obtain ⟨r, -, rfl⟩ := List.mem_map.mp hj
    exact (boc.refs i r.val r.property).1
  node i := .ordinary ⟨cells[i].d1, cells[i].d2, cells[i].data⟩

/-- The node of a slot. -/
def nodeAt (i : Nat) : Fin cells.length :=
  if h : i < cells.length then ⟨i, h⟩ else ⟨0, boc.length_pos⟩

theorem nodeAt_of_lt {i : Nat} (h : i < cells.length) : boc.nodeAt i = ⟨i, h⟩ := dif_pos h

theorem image (sha256 : List UInt8 → Hash) : Image sha256 boc.graph boc.nodeAt cells where
  ordinary i c hc _ := by
    obtain ⟨hi, rfl⟩ := List.getElem?_eq_some_iff.mp hc
    rw [boc.nodeAt_of_lt hi]
    refine ⟨_, rfl, rfl, rfl, rfl, ?_⟩
    have hchildren : cells[i].refs.map (fun r => boc.nodeAt r.toNat) =
        cells[i].refs.attach.map fun r => boc.nodeAt r.val.toNat :=
      (List.attach_map_val (f := fun r : UInt8 => boc.nodeAt r.toNat)).symm
    rw [hchildren]
    apply List.map_congr_left
    intro r _
    exact (boc.nodeAt_of_lt (boc.refs ⟨i, hi⟩ r.val r.property).2).symm
  pruned i c hc hp := absurd hp (boc.not_pruned (List.mem_of_getElem? hc))
  absent i c r hc hr hle := by
    obtain ⟨hi, rfl⟩ := List.getElem?_eq_some_iff.mp hc
    have := (boc.refs ⟨i, hi⟩ r hr).2
    omega

/-- Depths in a list of cells are bounded by its length. -/
theorem depth_lt (sha256 : List UInt8 → Hash) (i : Fin cells.length) :
    (boc.graph.digest sha256 i).depth < cells.length - i := by
  apply boc.graph.toDag.induction fun i =>
    (boc.graph.digest sha256 i).depth < cells.length - i
  intro i ih
  have hdigest : (boc.graph.digest sha256 i).depth = depthOf
      ((boc.graph.children i).map fun j => (boc.graph.digest sha256 j).depth) := by
    rw [boc.graph.digest_ordinary sha256 (show boc.graph.node i = .ordinary _ from rfl)]
  have hle : depthOf ((boc.graph.children i).map fun j => (boc.graph.digest sha256 j).depth) ≤
      cells.length - i - 1 := by
    apply depthOf_le
    intro depth hdepth
    obtain ⟨j, hj, rfl⟩ := List.mem_map.mp hdepth
    have hlt := ih j hj
    have hlater := boc.graph.later i j hj
    omega
  have hi := i.isLt
  omega

/-- Hashing an ordinary list succeeds, unless a cell is taken for that of the public key. -/
theorem calcCellHashes_eq (sdk : Sdk) {parsed : BocContext} (hparsed : Parsed parsed cells)
    (hindex : parsed.publicKeyCellIndex = 0 ∨ cells.length ≤ parsed.publicKeyCellIndex) :
    Source.calcCellHashes sdk parsed.cellsCount parsed =
      .ok (digestCells sdk cells 0 cells.length parsed) := by
  rw [hparsed.count, calcCellHashes_eq_ok boc.admitted.forward (Nat.zero_le _)
    (fun i c _ hc => hparsed.holds i c hc) (Nat.le_refl _) boc.length_le]
  refine ⟨fun i c _ hi hc => ?_, rfl⟩
  obtain ⟨hlt, rfl⟩ := List.getElem?_eq_some_iff.mp hc
  refine Or.inr ⟨fun r hr => ?_, fun hkey => ?_⟩
  · exact Nat.lt_of_lt_of_le (boc.refs ⟨i, hlt⟩ r hr).2 boc.length_le
  · exact absurd (hindex.resolve_left hkey.1) (Nat.not_le_of_lt (hkey.2 ▸ hlt))

/-- The tables after hashing an ordinary list, in a context without leftovers. -/
theorem calcCellHashes (sdk : Sdk) {parsed : BocContext} (hparsed : Parsed parsed cells)
    (hclear : ∀ j, parsed.hashes j = zeroHash ∧ parsed.cellDepth j = 0)
    (hindex : parsed.publicKeyCellIndex = 0) :
    ∃ hashed, Source.calcCellHashes sdk parsed.cellsCount parsed = .ok hashed ∧
      ClearTables sdk cells 0 hashed := by
  refine ⟨_, boc.calcCellHashes_eq sdk hparsed (Or.inl hindex), ?_, fun i c hi hc => ?_, fun j hj => ?_⟩
  · rw [(digestCells_sameCells ..).publicKeyCellIndex, hindex]
  · rw [← (hclear i).2]
    exact digestCells_digested sdk boc.admitted.forward parsed hi
      (List.getElem?_eq_some_iff.mp hc).1 hc
  · obtain ⟨hhash, hdepth⟩ := digestCells_outside sdk cells parsed
      (show j < 0 ∨ cells.length ≤ j from Or.inr hj)
    rw [hhash, hdepth]
    exact hclear j

/-- The announced number of cells. -/
theorem announced : (UInt8.ofNat cells.length).toNat = cells.length := by
  have hle := boc.length_le
  rw [UInt8.toNat_ofNat']
  simp only [maxContractCellsCount] at hle
  omega

/-- An ordinary list is parsed to itself; the tables are left alone. -/
theorem parsed (bc : BocContext) (header : BocHeader) (tail : List UInt8) {src : ByteStream}
    (hcursor : src.getCursor =
      header.bytes (UInt8.ofNat cells.length) ++ (serializeCells cells ++ tail)) :
    ∃ next parsed, deserializeCellsTree src bc = .ok (next, parsed) ∧ Parsed parsed cells ∧
      parsed.hashes = bc.hashes ∧ parsed.cellDepth = bc.cellDepth ∧
      parsed.publicKeyCellIndex = bc.publicKeyCellIndex := by
  obtain ⟨next, hparse, -⟩ := deserializeCellsTree_serialize bc header
    (UInt8.ofNat cells.length) cells tail hcursor (boc.announced.symm ▸ boc.admitted)
    (Or.inl boc.announced.symm) boc.length_le
  refine ⟨next, _, hparse, parsed_storeCells cells tail _ rfl, ?_⟩
  rw [storeCells_eq]
  exact ⟨rfl, rfl, rfl⟩

end OrdinaryBoc

/-- Parsing and hashing are correct on every ordinary bag of cells. -/
theorem ordinaryBoc_parsed_and_hashed {cells : List RawCell} (boc : OrdinaryBoc cells) (sdk : Sdk)
    (ctx : SignTransactionContext) (header : BocHeader) (tail : List UInt8) {src : ByteStream}
    (hcursor : src.getCursor =
      header.bytes (UInt8.ofNat cells.length) ++ (serializeCells cells ++ tail)) :
    ∃ next parsed hashed,
      deserializeCellsTree src BocContext.zero = .ok (next, parsed) ∧
      parsed.cellsCount = cells.length ∧
      (∀ i c, cells[i]? = some c → StoredAs (parsed.cells i) c) ∧
      preparePayloadHash sdk ctx parsed = .ok (hashed, toSignPrefix ctx ++
        (boc.graph.digest sdk.sha256 ⟨0, boc.length_pos⟩).hash.toList) := by
  obtain ⟨next, parsed, hparse, hparsed, hhashes, hdepths, hindex⟩ :=
    boc.parsed BocContext.zero header tail hcursor
  have hclear : ∀ j, parsed.hashes j = zeroHash ∧ parsed.cellDepth j = 0 :=
    fun j => ⟨congrFun hhashes j, congrFun hdepths j⟩
  obtain ⟨hashed, hhash, htables⟩ := boc.calcCellHashes sdk hparsed hclear hindex
  have hdepth := boc.depth_lt sdk.sha256 ⟨0, boc.length_pos⟩
  have hle := boc.length_le
  simp only [maxContractCellsCount] at hle
  have hroot := (boc.image sdk.sha256).slotHolds boc.admitted.forward htables
    ⟨0, boc.length_pos⟩ 0 cells[0] (boc.nodeAt_of_lt boc.length_pos) (Nat.le_refl 0)
    (List.getElem?_eq_getElem boc.length_pos) (by omega)
  refine ⟨next, parsed, hashed, hparse, hparsed.count, fun i c hc => ?_,
    preparePayloadHash_eq_ok.mpr ⟨hhash, ?_⟩⟩
  · obtain ⟨rest, hrest⟩ := hparsed.holds i c hc
    exact hrest.storedAs
  · rw [rootCellIndex, hroot.1]

/-- Two cells that share a child, the first one with a level bit. -/
def diamond : List RawCell := [
  ⟨0x22, 0x02, [0xAB], [0x01, 0x02], by decide, by decide⟩,
  ⟨0x01, 0x01, [0x80], [0x02], by decide, one_ref⟩,
  ⟨0x00, 0x00, [], [], no_data, no_refs⟩]

theorem diamondBoc : OrdinaryBoc diamond where
  length_pos := by decide
  length_le := by decide
  ordinary := by decide
  refs_le := by decide
  refs := by decide

theorem diamond_parsed_and_hashed :
    ∃ next parsed hashed,
      deserializeCellsTree (received (serialize plainHeader 0x03 diamond)) BocContext.zero =
        .ok (next, parsed) ∧
      parsed.cellsCount = diamond.length ∧
      (∀ i c, diamond[i]? = some c → StoredAs (parsed.cells i) c) ∧
      preparePayloadHash testSdk (plainRequest 0).ctx parsed =
        .ok (hashed, toSignPrefix (plainRequest 0).ctx ++
          (diamondBoc.graph.digest testSdk.sha256 ⟨0, diamondBoc.length_pos⟩).hash.toList) :=
  ordinaryBoc_parsed_and_hashed diamondBoc testSdk (plainRequest 0).ctx plainHeader []
    (by rw [List.append_nil]; rfl)

end EverscaleLedger.Properties
