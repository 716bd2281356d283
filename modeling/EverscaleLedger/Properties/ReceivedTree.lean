import EverscaleLedger.Properties.Coverage

/-! What acceptance says about the tree of received cells, and which slots of the
tables a cell takes the hashes and depths of its children from. -/
namespace EverscaleLedger.Properties

open Library Source

/-- The slots of the signed root and of every other received cell are computed
from the slots of its children. -/
structure SlotsComputed (sdk : Sdk) (bc : BocContext) (cells : List RawCell) (p : Prepared) :
    Prop where
  root : ∀ received : RawCell, cells[rootCellIndex]? = some received → ¬ received.Pruned →
    ∃ root rest, Holds (p.hashed.cells rootCellIndex) root rest ∧ root.refs = received.refs ∧
      Digested sdk p.hashed (bc.cellDepth rootCellIndex) rootCellIndex root
  other : ∀ i c, 0 < i → cells[i]? = some c → Digested sdk p.hashed (bc.cellDepth i) i c

/-- The received cells of an accepted transaction. A list that stops before the
announced number, and references past its end, are let through. -/
structure ReceivedTree (sdk : Sdk) {src : ByteStream} {bc : BocContext}
    (reception : Reception src bc) (p : Prepared) : Prop where
  stored_pos : 0 < reception.cells.length
  stored_le : reception.cells.length ≤ maxContractCellsCount
  stored_le_announced : reception.cells.length ≤ reception.announced.toNat
  complete : reception.cells.length = reception.announced.toNat ∨ reception.rest.getCursor = []
  refs : ∀ i (c : RawCell), reception.cells[i]? = some c → ∀ r ∈ c.refs,
    i < r.toNat ∧ r.toNat < maxContractCellsCount
  slots : SlotsComputed sdk bc reception.cells p
  absent : ∀ j, reception.cells.length ≤ j → SameSlot bc p.hashed j

theorem SignedRoot.slotsComputed {sdk : Sdk} {src : ByteStream} {bc toHash : BocContext}
    {reception : Reception src bc} {family : WalletFamily} {received root : RawCell} {p : Prepared}
    (h : SignedRoot sdk reception family received root toHash p) :
    SlotsComputed sdk bc reception.cells p where
  root c hc hp := by
    obtain rfl := Option.some.inj (h.received_eq.symm.trans hc)
    obtain ⟨rest, hrest⟩ := h.holds_root
    rw [← h.pruned_iff] at hp
    exact ⟨root, rest, hrest, h.refs_eq, h.cellDepth ▸ h.tables.root_digested hp⟩
  other i c hi hc := h.cellDepth ▸ h.tables.digested i c hi hc

/-- The received bytes with another root index in the header. -/
def Reception.withRootIndex {src : ByteStream} {bc : BocContext} (reception : Reception src bc)
    (rootIndex : UInt8) : List UInt8 :=
  { reception.header with rootIndex }.bytes reception.announced ++
    (serializeCells reception.cells ++ reception.rest.getCursor)

/-- The parser skips the root index. -/
theorem Reception.prepare_withRootIndex {src : ByteStream} {bc : BocContext}
    (reception : Reception src bc) (hpos : reception.cells ≠ []) (request : SigningRequest)
    (sdk : Sdk) (locals : Locals) (rootIndex : UInt8) :
    request.prepare sdk locals bc (received (reception.withRootIndex rootIndex)) =
      request.prepare sdk locals bc src := by
  have hcomplete : Complete reception.cells reception.announced.toNat reception.rest.getCursor :=
    reception.complete.imp_right fun hend => ⟨hpos, reception.length_le_announced, hend⟩
  obtain ⟨next, hparse, -⟩ := @deserializeCellsTree_serialize
    (received (reception.withRootIndex rootIndex)) bc { reception.header with rootIndex }
    reception.announced reception.cells reception.rest.getCursor rfl
    reception.admitted hcomplete reception.length_le
  rw [← reception.parsed_eq] at hparse
  unfold SigningRequest.prepare prepareToSign
  rw [hparse, reception.parse]
  rfl

/-- Every accepted byte string is received as a tree with these guarantees, and would be
accepted in the same way with any other root index. -/
theorem receivedTree {sdk : Sdk} {locals : Locals} {request : SigningRequest} {bc : BocContext}
    {src : ByteStream} {p : Prepared} (h : request.prepare sdk locals bc src = .ok p) :
    ∃ reception : Reception src bc, ReceivedTree sdk reception p ∧
      ∀ rootIndex, request.prepare sdk locals bc
        (received (reception.withRootIndex rootIndex)) = .ok p := by
  obtain ⟨next, parsed, family, rootSlice, toHash, hparse, hprepares⟩ := prepare_ok h
  obtain ⟨reception, rfl⟩ := exists_reception hparse
  obtain ⟨received, root, -, hsigned⟩ := hprepares.signedRoot
  have hpos := (List.getElem?_eq_some_iff.mp hsigned.received_eq).1
  refine ⟨reception, ⟨hpos, reception.length_le, reception.length_le_announced,
    reception.complete, fun i c hc r hr => ⟨?_, hsigned.refs_lt hc hr⟩, hsigned.slotsComputed,
    fun j hj => ?_⟩, fun rootIndex => ?_⟩
  · exact reception.forward.later i c hc r hr
  · obtain ⟨hhash, hdepth⟩ := hsigned.tables.outside j hj
    exact ⟨hhash.trans (congrFun hsigned.hashes j), hdepth.trans (congrFun hsigned.cellDepth j)⟩
  · rw [reception.prepare_withRootIndex (List.length_pos_iff.mp hpos), h]

theorem receivedTree_attachedTransfer :
    ∃ p, (plainRequest 0).prepare testSdk zeroLocals BocContext.zero
        (received (serialize plainHeader 0x02 attachedTransfer)) = .ok p ∧
      ∃ reception : Reception (received (serialize plainHeader 0x02 attachedTransfer))
        BocContext.zero, ReceivedTree testSdk reception p ∧
          ∀ rootIndex, (plainRequest 0).prepare testSdk zeroLocals BocContext.zero
            (received (reception.withRootIndex rootIndex)) = .ok p := by
  obtain ⟨p, hp, -⟩ := attachedTransfer_prepared.exists
  exact ⟨p, hp, receivedTree hp⟩

/-- A list of two cells that announces three and refers to the third one. -/
def truncatedTransfer : List RawCell :=
  [transferRoot 0x02 [0x01, 0x02] two_refs, transferGift 0x00 [] no_refs]

theorem truncatedTransfer_accepted :
    ∃ (reception : Reception
        (received (serialize { plainHeader with rootIndex := 0x07 } 0x03 truncatedTransfer))
        BocContext.zero) (p : Prepared),
      (plainRequest 0).prepare testSdk zeroLocals BocContext.zero
        (received (serialize { plainHeader with rootIndex := 0x07 } 0x03 truncatedTransfer)) =
        .ok p ∧
      reception.cells.length ≠ reception.announced.toNat ∧ reception.header.rootIndex ≠ 0 ∧
      ∃ root r, reception.cells[rootCellIndex]? = some root ∧ r ∈ root.refs ∧
        ¬ r.toNat < reception.cells.length := by
  obtain ⟨reception, hheader, hannounced, hcells⟩ := exists_reception_of_cells
    { plainHeader with rootIndex := 0x07 } 0x03 truncatedTransfer BocContext.zero (by decide)
    (by decide) (by decide)
  have hsuccess : Succeeds ((plainRequest 0).prepare testSdk zeroLocals BocContext.zero
      (received (serialize { plainHeader with rootIndex := 0x07 } 0x03 truncatedTransfer)))
        fun _ => True := by decide +kernel
  obtain ⟨p, hp, -⟩ := hsuccess.exists
  refine ⟨reception, p, hp, ?_, ?_, ?_⟩
  · rw [hcells, hannounced]
    decide
  · rw [hheader]
    decide
  · rw [hcells]
    exact ⟨_, 0x02, rfl, by decide, by decide⟩

end EverscaleLedger.Properties
