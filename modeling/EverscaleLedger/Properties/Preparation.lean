import EverscaleLedger.Properties.Decoding
import EverscaleLedger.Properties.Hashing
import EverscaleLedger.Properties.PrependAddress

/-! A successful `prepare_to_sign`, taken apart: the cells it received, the cells
it decoded, and the tables it hashed them into. -/
namespace EverscaleLedger.Properties

open Library Source Slice

/-- The request context of `prepare_to_sign`. -/
structure SigningRequest where
  ctx : SignTransactionContext
  wc : UInt8
  address : List UInt8
  prependAddress : List UInt8

def SigningRequest.prepare (request : SigningRequest) (sdk : Sdk) (locals : Locals)
    (bc : BocContext) (src : ByteStream) : Outcome Prepared :=
  prepareToSign sdk locals request.ctx bc src request.wc request.address request.prependAddress

def SigningRequest.family (request : SigningRequest) : Option WalletFamily :=
  (WalletType.ofByte request.ctx.currentWalletType).map WalletType.family

/-- The cells that a byte string was parsed into. -/
structure Reception (src : ByteStream) (bc : BocContext) where
  header : BocHeader
  announced : UInt8
  cells : List RawCell
  rest : ByteStream
  parsed : BocContext
  parse : deserializeCellsTree src bc = .ok (rest, parsed)
  bytes : src.getCursor = header.bytes announced ++ (serializeCells cells ++ rest.getCursor)
  parsed_eq : parsed = storeCells 0 (serializeCells cells ++ rest.getCursor) cells
    { bc with cellsCount := 0 }
  admitted : AdmittedFrom 0 announced.toNat cells
  length_le : cells.length ≤ maxContractCellsCount
  length_le_announced : cells.length ≤ announced.toNat
  complete : cells.length = announced.toNat ∨ rest.getCursor = []

theorem exists_reception {src next : ByteStream} {bc parsed : BocContext}
    (h : deserializeCellsTree src bc = .ok (next, parsed)) :
    ∃ reception : Reception src bc, reception.parsed = parsed := by
  obtain ⟨header, announced, cells, hbytes, hparsed, hadmitted, hle, hle', hend, -⟩ :=
    deserializeCellsTree_ok h
  exact ⟨⟨header, announced, cells, next, parsed, h, hbytes, hparsed, hadmitted, hle, hle', hend⟩,
    rfl⟩

namespace Reception

variable {src : ByteStream} {bc : BocContext} (reception : Reception src bc)

theorem parsed_cells : Parsed reception.parsed reception.cells := by
  rw [reception.parsed_eq]
  exact parsed_storeCells _ _ _ rfl

theorem forward : Forward reception.cells := reception.admitted.forward

theorem parsed_unique {next : ByteStream} {parsed : BocContext}
    (h : deserializeCellsTree src bc = .ok (next, parsed)) : reception.parsed = parsed := by
  have hboth := reception.parse.symm.trans h
  injection hboth with hpair
  exact congrArg Prod.snd hpair

theorem parsed_tables : reception.parsed.hashes = bc.hashes ∧
    reception.parsed.cellDepth = bc.cellDepth ∧
    reception.parsed.publicKeyCellData = bc.publicKeyCellData ∧
    reception.parsed.publicKeyCellIndex = bc.publicKeyCellIndex := by
  rw [reception.parsed_eq, storeCells_eq]
  exact ⟨rfl, rfl, rfl, rfl⟩

end Reception

/-- The decoders of a wallet family. -/
def decodeFor (sdk : Sdk) (locals : Locals) (request : SigningRequest) (parsed : BocContext)
    (rootSlice : SliceData) : WalletFamily → Outcome Decoded
  | .walletV3 => decodeWalletV3 sdk locals parsed rootSlice request.ctx
  | .contract => decodeContract sdk locals parsed (parsed.cells rootCellIndex) rootSlice request.wc
      request.address request.ctx
  | .prefixedContract => decodePrefixedContract sdk locals parsed rootSlice request.wc
      request.address request.ctx

/-- The context whose cells are hashed. -/
def contextToHash (locals : Locals) (request : SigningRequest) (parsed : BocContext) :
    WalletFamily → Outcome BocContext
  | .walletV3 | .contract => pure parsed
  | .prefixedContract => do
      let root ← prependAddressToCell locals.cellBuffer.toList (parsed.cells rootCellIndex)
        request.wc request.prependAddress
      pure (parsed.setCell rootCellIndex root)

/-- The bytes in front of the root hash. -/
def toSignPrefix (ctx : SignTransactionContext) : List UInt8 :=
  if ctx.signWithChainId then ctx.chainId else []

theorem preparePayloadHash_eq_ok {sdk : Sdk} {ctx : SignTransactionContext}
    {bc hashed : BocContext} {toSign : List UInt8} :
    preparePayloadHash sdk ctx bc = .ok (hashed, toSign) ↔
      calcCellHashes sdk bc.cellsCount bc = .ok hashed ∧
        toSign = toSignPrefix ctx ++ (hashed.hashes rootCellIndex).toList := by
  simp only [preparePayloadHash, bind_eq_ok, toSignPrefix]
  constructor
  · rintro ⟨bc', hhash, h⟩
    cases hchain : ctx.signWithChainId <;> simp [hchain, pure_eq_ok] at h <;>
      obtain ⟨rfl, rfl⟩ := h <;> simp [hhash]
  · rintro ⟨hhash, rfl⟩
    refine ⟨hashed, hhash, ?_⟩
    cases hchain : ctx.signWithChainId <;> simp [pure_eq_ok]

/-- What a successful `prepare_to_sign` went through. -/
structure Prepares (sdk : Sdk) (locals : Locals) (request : SigningRequest) (parsed : BocContext)
    (family : WalletFamily) (rootSlice : SliceData) (toHash : BocContext) (p : Prepared) :
    Prop where
  count : 0 < parsed.cellsCount
  root : SliceData.fromCell (parsed.cells rootCellIndex) = .ok rootSlice
  family_eq : request.family = some family
  decode : decodeFor sdk locals request parsed rootSlice family = .ok p.decoded
  context : contextToHash locals request parsed family = .ok toHash
  hash : calcCellHashes sdk toHash.cellsCount toHash = .ok p.hashed
  toSign : p.toSign = toSignPrefix request.ctx ++ (p.hashed.hashes rootCellIndex).toList
  bc : p.bc = if family = .prefixedContract then BocContext.zero else p.hashed

theorem prepare_ok {sdk : Sdk} {locals : Locals} {request : SigningRequest} {bc : BocContext}
    {src : ByteStream} {p : Prepared} (h : request.prepare sdk locals bc src = .ok p) :
    ∃ next parsed family rootSlice toHash, deserializeCellsTree src bc = .ok (next, parsed) ∧
      Prepares sdk locals request parsed family rootSlice toHash p := by
  simp only [SigningRequest.prepare, prepareToSign, bind_eq_ok, validate_eq_ok] at h
  obtain ⟨⟨next, parsed⟩, hparse, _, hcount, rootSlice, hroot, h⟩ := h
  refine ⟨next, parsed, ?_⟩
  cases hfamily : request.family with
  | none =>
    unfold SigningRequest.family at hfamily
    rw [hfamily] at h
    cases h
  | some family =>
    have hswitch := hfamily
    unfold SigningRequest.family at hswitch
    rw [hswitch] at h
    cases family with
    | walletV3 =>
      simp only [bind_eq_ok, pure_eq_ok] at h
      obtain ⟨decoded, hdecode, ⟨hashed, toSign⟩, hpayload, rfl⟩ := h
      obtain ⟨hhash, rfl⟩ := preparePayloadHash_eq_ok.mp hpayload
      exact ⟨.walletV3, rootSlice, parsed, hparse, hcount, hroot, hfamily, hdecode, rfl, hhash, rfl,
        rfl⟩
    | contract =>
      simp only [bind_eq_ok, pure_eq_ok] at h
      obtain ⟨decoded, hdecode, ⟨hashed, toSign⟩, hpayload, rfl⟩ := h
      obtain ⟨hhash, rfl⟩ := preparePayloadHash_eq_ok.mp hpayload
      exact ⟨.contract, rootSlice, parsed, hparse, hcount, hroot, hfamily, hdecode, rfl, hhash, rfl,
        rfl⟩
    | prefixedContract =>
      simp only [bind_eq_ok, pure_eq_ok] at h
      obtain ⟨decoded, hdecode, root, hprepend, ⟨hashed, toSign⟩, hpayload, rfl⟩ := h
      obtain ⟨hhash, rfl⟩ := preparePayloadHash_eq_ok.mp hpayload
      refine ⟨.prefixedContract, rootSlice, _, hparse, hcount, hroot, hfamily, hdecode, ?_, hhash,
        rfl, rfl⟩
      unfold contextToHash
      rw [hprepend]
      rfl

/-- The cell that is hashed as the root, and the tables that its hash comes from. -/
structure SignedRoot (sdk : Sdk) {src : ByteStream} {bc : BocContext}
    (reception : Reception src bc) (family : WalletFamily) (received root : RawCell)
    (toHash : BocContext) (p : Prepared) : Prop where
  received_eq : reception.cells[0]? = some received
  holds_root : ∃ rest, Holds (p.hashed.cells rootCellIndex) root rest
  holds : ∀ i c, 0 < i → reception.cells[i]? = some c → ∃ rest, Holds (p.hashed.cells i) c rest
  d1_eq : root.d1 = received.d1
  refs_eq : root.refs = received.refs
  unprefixed : family ≠ .prefixedContract → root = received
  cellDepth : toHash.cellDepth = bc.cellDepth
  hashes : toHash.hashes = bc.hashes
  publicKeyCellData : toHash.publicKeyCellData = bc.publicKeyCellData
  publicKeyCellIndex : toHash.publicKeyCellIndex = bc.publicKeyCellIndex
  tables : HashedTables sdk reception.cells root toHash p.hashed

/-- The context to hash differs from the parsed one in the root cell at most. -/
theorem contextToHash_ok {locals : Locals} {request : SigningRequest} {parsed toHash : BocContext}
    {family : WalletFamily} {received : RawCell} {rest : List UInt8}
    (hroot : Holds (parsed.cells rootCellIndex) received rest)
    (h : contextToHash locals request parsed family = .ok toHash) :
    (∃ root tail, Holds (toHash.cells rootCellIndex) root tail ∧ root.d1 = received.d1 ∧
      root.refs = received.refs ∧ (family ≠ .prefixedContract → root = received)) ∧
    (∀ i, 0 < i → toHash.cells i = parsed.cells i) ∧ toHash.cellsCount = parsed.cellsCount ∧
      toHash.cellDepth = parsed.cellDepth ∧ toHash.hashes = parsed.hashes ∧
      toHash.publicKeyCellData = parsed.publicKeyCellData ∧
      toHash.publicKeyCellIndex = parsed.publicKeyCellIndex := by
  cases family with
  | walletV3 =>
    cases h
    exact ⟨⟨received, rest, hroot, rfl, rfl, fun _ => rfl⟩, fun _ _ => rfl, rfl, rfl, rfl, rfl, rfl⟩
  | contract =>
    cases h
    exact ⟨⟨received, rest, hroot, rfl, rfl, fun _ => rfl⟩, fun _ _ => rfl, rfl, rfl, rfl, rfl, rfl⟩
  | prefixedContract =>
    simp only [contextToHash, bind_eq_ok, pure_eq_ok] at h
    obtain ⟨cell, hcell, rfl⟩ := h
    obtain ⟨root, tail, hholds, hd1, hrefs, -⟩ :=
      prependAddressToCell_ok hroot (Vector.length_toList ..) hcell
    refine ⟨⟨root, tail, ?_, hd1, hrefs, fun hfamily => absurd rfl hfamily⟩, fun i hi => ?_, rfl,
      rfl, rfl, rfl, rfl⟩
    · simpa [BocContext.setCell] using hholds
    · exact Function.update_of_ne (by simp only [rootCellIndex]; omega) _ _

theorem Prepares.signedRoot {sdk : Sdk} {locals : Locals} {request : SigningRequest}
    {src : ByteStream} {bc : BocContext} {reception : Reception src bc} {family : WalletFamily}
    {rootSlice : SliceData} {toHash : BocContext} {p : Prepared}
    (h : Prepares sdk locals request reception.parsed family rootSlice toHash p) :
    ∃ received root, rootSlice = received.slice ∧
      SignedRoot sdk reception family received root toHash p := by
  have hparsed := reception.parsed_cells
  have hpos : 0 < reception.cells.length := by
    rw [← hparsed.count]
    exact h.count
  have hreceived : reception.cells[0]? = some reception.cells[0] := List.getElem?_eq_getElem hpos
  obtain ⟨rest, hrest⟩ := hparsed.holds 0 _ hreceived
  have hslice : rootSlice = reception.cells[0].slice :=
    Except.ok.inj (h.root.symm.trans hrest.fromCell)
  obtain ⟨⟨root, tail, hholds, hd1, hrefs, hunprefixed⟩, hother, hcount, hdepth, hhashes, hdata,
    hindex⟩ := contextToHash_ok hrest h.context
  obtain ⟨hhashes', hdepth', hdata', hindex'⟩ := reception.parsed_tables
  have hcells : ∀ i c, 0 < i → reception.cells[i]? = some c →
      ∃ rest, Holds (toHash.cells i) c rest := by
    intro i c hi hc
    rw [hother i hi]
    exact hparsed.holds i c hc
  have hhash := h.hash
  rw [hcount, hparsed.count] at hhash
  have htables : HashedTables sdk reception.cells root toHash p.hashed := by
    refine calcCellHashes_tables reception.forward hholds ?_ ?_ hcells hpos reception.length_le hhash
    · rw [hrefs]
      exact reception.forward.refs_le _ (List.getElem_mem hpos)
    · rw [hrefs]
      exact reception.forward.later 0 _ hreceived
  refine ⟨_, root, hslice, hreceived, ?_, ?_, hd1, hrefs, hunprefixed, hdepth.trans hdepth',
    hhashes.trans hhashes', hdata.trans hdata', hindex.trans hindex', htables⟩
  · rw [htables.same.cells]
    exact ⟨tail, hholds⟩
  · rw [htables.same.cells]
    exact hcells

/-- A successful run over received cells, from the cells to what is signed. -/
theorem Reception.prepares {sdk : Sdk} {locals : Locals} {request : SigningRequest}
    {src : ByteStream} {bc : BocContext} {family : WalletFamily} {p : Prepared}
    (reception : Reception src bc) (hfamily : request.family = some family)
    (h : request.prepare sdk locals bc src = .ok p) :
    ∃ received root toHash, reception.cells[rootCellIndex]? = some received ∧
      Prepares sdk locals request reception.parsed family received.slice toHash p ∧
      SignedRoot sdk reception family received root toHash p := by
  obtain ⟨next, parsed, family', rootSlice, toHash, hparse, hprepares⟩ := prepare_ok h
  obtain rfl := reception.parsed_unique hparse
  obtain rfl := Option.some.inj (hfamily.symm.trans hprepares.family_eq)
  obtain ⟨received, root, rfl, hsigned⟩ := hprepares.signedRoot
  exact ⟨received, root, toHash, hsigned.received_eq, hprepares, hsigned⟩

end EverscaleLedger.Properties
