import EverscaleLedger.Properties.Coverage
import EverscaleLedger.Properties.Representation
import EverscaleLedger.Properties.Views

/-! Pruned messages. The client may replace subtrees by pruned branches, which carry
the hash and the depth of what they stand for; the signature should be that of the
whole message. -/
namespace EverscaleLedger.Properties

open Library Source

def RawCell.label (c : RawCell) : Label := ⟨c.d1, c.d2, c.data⟩

theorem RawCell.view_eq {a b : RawCell} : a.view = b.view ↔
    a.d1.toNat &&& 0b00011111 = b.d1.toNat &&& 0b00011111 ∧ a.d2 = b.d2 ∧ a.data = b.data := by
  unfold view
  rw [Prod.mk.injEq, Prod.mk.injEq]

theorem representationOf_of_view {a b : RawCell} (h : a.view = b.view) (children : List Digest) :
    representationOf a.label children = representationOf b.label children := by
  obtain ⟨hd1, hd2, hdata⟩ := RawCell.view_eq.mp h
  unfold representationOf RawCell.label
  rw [hd1, hd2, hdata]

/-- The result of a call against the whole message in memory: its flow, its strings
and the representation hash over its root, in the form in which the root is signed. -/
structure MatchesWhole (sdk : Sdk) (locals : Locals) (request : SigningRequest)
    (family : WalletFamily) (whole : BocContext) (root : RawCell) (children : List Digest)
    (p : Prepared) : Prop where
  decoded : ∃ decoded, decodeFor sdk locals request whole root.slice family = .ok decoded ∧
    decoded.flow = p.decoded.flow ∧ decoded.display = p.decoded.display
  toSign : ∃ toHash signed rest, contextToHash locals request whole family = .ok toHash ∧
    Holds (toHash.cells rootCellIndex) signed rest ∧
    p.toSign = toSignPrefix request.ctx ++
      (sdk.sha256 (representationOf signed.label children)).toList

theorem prependedLabel_of_view {cellBuffer address : List UInt8} {wc : UInt8} {a b : RawCell}
    (h : a.view = b.view) :
    prependedLabel cellBuffer wc address a = prependedLabel cellBuffer wc address b := by
  obtain ⟨-, hd2, hdata⟩ := RawCell.view_eq.mp h
  unfold prependedLabel RawCell.bitLen
  rw [hd2, hdata]

/-- The root is rewritten alike in contexts that agree on it. -/
theorem contextToHash_congr {locals : Locals} {request : SigningRequest} {family : WalletFamily}
    {a b hashedA : BocContext} {ca cb : RawCell} {ra rb : List UInt8}
    (hca : Holds (a.cells rootCellIndex) ca ra) (hcb : Holds (b.cells rootCellIndex) cb rb)
    (hview : ca.view = cb.view) (hrefs : ca.refs.length ≤ maxReferencesCount)
    (hne : family = .prefixedContract → ca.data ≠ [])
    (h : contextToHash locals request a family = .ok hashedA) :
    ∃ hashedB rootA rootB tailA tailB, contextToHash locals request b family = .ok hashedB ∧
      Holds (hashedA.cells rootCellIndex) rootA tailA ∧
      Holds (hashedB.cells rootCellIndex) rootB tailB ∧ rootA.view = rootB.view := by
  cases family with
  | walletV3 =>
    cases h
    exact ⟨b, ca, cb, ra, rb, rfl, hca, hcb, hview⟩
  | contract =>
    cases h
    exact ⟨b, ca, cb, ra, rb, rfl, hca, hcb, hview⟩
  | prefixedContract =>
    have hneA := hne rfl
    have hneB : cb.data ≠ [] := RawCell.data_of_view hview ▸ hneA
    have hlength := RawCell.refs_length_of_view hview
    simp only [contextToHash, bind_eq_ok, pure_eq_ok] at h ⊢
    obtain ⟨cellA, hcellA, rfl⟩ := h
    obtain ⟨rootA, tailA, hholdsA, hd1A, -, hlabelA, hboundA⟩ :=
      prependAddressToCell_ok hca (Vector.length_toList ..) hcellA
    have hlabel := (prependedLabel_of_view hview).symm.trans (hlabelA hneA)
    have hboundB : cb.refs = [] ∨
        cellDataOffset + dataSizeOf rootA.d2 + cb.refs.length ≤ cellBufferSize := by
      rw [← hlength]
      apply hboundA.imp_left
      intro hnil
      rw [hnil, List.length_nil] at hlength
      exact List.eq_nil_of_length_eq_zero hlength.symm
    obtain ⟨cellB, hcellB⟩ := prependAddressToCell_exists hcb (Vector.length_toList ..) hneB hlabel
      (hlength ▸ hrefs) hboundB
    obtain ⟨rootB, tailB, hholdsB, hd1B, -, hlabelB, -⟩ :=
      prependAddressToCell_ok hcb (Vector.length_toList ..) hcellB
    obtain ⟨hd2, hdata⟩ := Prod.mk.inj (Except.ok.inj (hlabel.symm.trans (hlabelB hneB)))
    refine ⟨_, rootA, rootB, tailA, tailB, ⟨cellB, hcellB, rfl⟩, ?_, ?_, ?_⟩
    · simpa [BocContext.setCell] using hholdsA
    · simpa [BocContext.setCell] using hholdsB
    · rw [RawCell.view_eq, hd1A, hd1B]
      exact ⟨(RawCell.view_eq.mp hview).1, hd2, hdata⟩

/-- Lists of two bytes each agree as a whole when they agree one by one. -/
theorem flatMap_pairs {α : Type} {f g : α → List UInt8} {items : List α}
    (hf : ∀ item, (f item).length = 2) (hg : ∀ item, (g item).length = 2)
    (h : items.flatMap f = items.flatMap g) : ∀ item ∈ items, f item = g item := by
  induction items with
  | nil => simp
  | cons first items ih =>
    rw [List.flatMap_cons, List.flatMap_cons] at h
    obtain ⟨hfirst, hrest⟩ := List.append_inj h ((hf first).trans (hg first).symm)
    exact List.forall_mem_cons.mpr ⟨hfirst, ih hrest⟩

/-- The bytes that are hashed for a cell are its representation only when the depths
of all children fit a byte: the high byte of a depth is always zero. -/
theorem depth_lt_of_representation {c : RawCell} {hashed : BocContext} {i size : Nat}
    {origin : Nat → Fin size} {digest : Fin size → Digest}
    (hindex : hashed.publicKeyCellIndex = 0)
    (hbound : ∀ r ∈ c.refs, (digest (origin r.toNat)).depth < 65536)
    (h : c.representation hashed i =
      representationOf c.label ((c.refs.map fun r => origin r.toNat).map digest)) :
    ∀ r ∈ c.refs, (digest (origin r.toNat)).depth < 256 := by
  have hown : c.hashedData hashed i = c.data := if_neg fun hkey => hkey.1 hindex
  have hpair : ∀ value, (writeUintBE 2 value).length = 2 := fun value => by rw [writeUintBE_two]; rfl
  unfold RawCell.representation representationOf at h
  rw [hown, List.append_assoc, List.append_assoc (_ ++ _)] at h
  have hrest := List.append_cancel_left h
  rw [RawCell.depthBytes, List.map_map, List.flatMap_map] at hrest
  have hlengths : (c.refs.flatMap fun ref => [0, hashed.cellDepth ref.toNat]).length =
      (c.refs.flatMap fun r => writeUintBE 2 (digest (origin r.toNat)).depth).length := by
    rw [List.length_flatMap, List.length_flatMap]
    simp only [hpair, List.length_cons, List.length_nil]
  have hdepths := flatMap_pairs (fun _ => rfl) (fun _ => hpair _)
    (List.append_inj hrest hlengths).1
  intro r hr
  have hhigh := hdepths r hr
  rw [writeUintBE_two, List.cons.injEq] at hhigh
  have hzero := congrArg UInt8.toNat hhigh.1
  rw [UInt8.toNat_ofNat', Function.comp_apply] at hzero
  have := hbound r hr
  change 0 = _ at hzero
  omega

/-- A function maps two byte strings to different values unless they are equal. -/
def Separates (sha256 : List UInt8 → Hash) (first second : List UInt8) : Prop :=
  sha256 first = sha256 second → first = second

/-- A received list in which subtrees below the decoded cells may be replaced by
pruned branches, and the whole message, of which the decoders see three cells. -/
structure PrunedMessage (sha256 : List UInt8 → Hash) (cells : List RawCell) {size : Nat}
    (graph : Graph size) (origin : Nat → Fin size) (whole : BocContext) (root : RawCell) :
    Prop where
  image : Image sha256 graph origin cells
  kept : ∀ i ≤ bodyCellIndex, ∀ c : RawCell, cells[i]? = some c → ¬ c.Pruned
  whole : ∃ wholeCells, Parsed whole wholeCells ∧ SameView wholeCells cells ∧
    wholeCells[rootCellIndex]? = some root

/-- The children of the root, as the representation takes them. -/
def Graph.childDigests {size : Nat} (sha256 : List UInt8 → Hash) (graph : Graph size)
    (i : Fin size) : List Digest := (graph.children i).map (graph.digest sha256)

/-- Signing a pruned message gives what the whole message gives when the whole
message has a depth of at most 256, and otherwise only by a collision of the hash
function: the bytes that are hashed for the root differ. -/
theorem matchesWhole_when {sdk : Sdk} {locals : Locals} {request : SigningRequest}
    {src : ByteStream} {p : Prepared} {family : WalletFamily}
    (reception : Reception src BocContext.zero) (hfamily : request.family = some family)
    (h : request.prepare sdk locals BocContext.zero src = .ok p)
    {size : Nat} {graph : Graph size} {origin : Nat → Fin size} {whole : BocContext}
    {wholeRoot : RawCell}
    (hpruned : PrunedMessage sdk.sha256 reception.cells graph origin whole wholeRoot) :
    ((graph.digest sdk.sha256 (origin rootCellIndex)).depth ≤ 256 →
      MatchesWhole sdk locals request family whole wholeRoot
        (graph.childDigests sdk.sha256 (origin rootCellIndex)) p) ∧
    ((∀ signed rest, Holds (p.hashed.cells rootCellIndex) signed rest →
        Separates sdk.sha256 (signed.representation p.hashed rootCellIndex)
          (representationOf signed.label (graph.childDigests sdk.sha256 (origin rootCellIndex)))) →
      MatchesWhole sdk locals request family whole wholeRoot
        (graph.childDigests sdk.sha256 (origin rootCellIndex)) p →
      (graph.digest sdk.sha256 (origin rootCellIndex)).depth ≤ 256) := by
  obtain ⟨himage, hkept, wholeCells, hwhole, hview, hroot⟩ := hpruned
  unfold Graph.childDigests
  obtain ⟨received, root, toHash, hreceived, hprepares, hsigned⟩ := reception.prepares hfamily h
  have hparsed := reception.parsed_cells
  have hordinary := hkept rootCellIndex (Nat.zero_le _) received hreceived
  obtain ⟨rest, hholds⟩ := hparsed.holds rootCellIndex received hreceived
  obtain ⟨wholeRest, hwholeHolds⟩ := hwhole.holds rootCellIndex wholeRoot hroot
  have hrootView : wholeRoot.view = received.view := by
    have hboth := hview rootCellIndex (Nat.zero_le _)
    rw [hroot, hreceived] at hboth
    exact Option.some.inj hboth
  have hdecode := hprepares.decode
  -- the whole message is decoded like the pruned one, and its root rewritten like it
  have hdecodeWhole : decodeFor sdk locals request whole wholeRoot.slice family = .ok p.decoded := by
    rw [decodeFor_congr hwhole hparsed hview sdk locals request hwholeHolds hholds hrootView]
    exact hdecode
  obtain ⟨wholeHashed, signed, wholeSigned, tail, wholeTail, hwholeContext, hsignedHolds,
    hwholeSigned, hsignedView⟩ := contextToHash_congr hholds hwholeHolds hrootView.symm
      (reception.forward.refs_le _ (List.mem_of_getElem? hreceived))
      (fun heq => by
        subst heq
        exact decodePrefixedContract_data_ne hdecode) hprepares.context
  rw [← hsigned.tables.same.cells] at hsignedHolds
  obtain ⟨rootRest, hrootHolds⟩ := hsigned.holds_root
  obtain rfl := hsignedHolds.unique hrootHolds
  have htables : ClearTables sdk reception.cells 1 p.hashed := by
    refine ⟨?_, fun i c hi hc => ?_, fun j hj => ?_⟩
    · rw [hsigned.tables.same.publicKeyCellIndex, hsigned.publicKeyCellIndex]
      rfl
    · have hdigested := hsigned.tables.digested i c hi hc
      rwa [hsigned.cellDepth] at hdigested
    · obtain ⟨hhash, hdepth⟩ := hsigned.tables.outside j hj
      rw [hhash, hdepth, hsigned.hashes, hsigned.cellDepth]
      exact ⟨rfl, rfl⟩
  obtain ⟨label, hnode, -, -, -, hchildren⟩ := himage.ordinary _ _ hreceived hordinary
  have hsignedOrdinary := mt hsigned.pruned_iff.mp hordinary
  have hhash := (hsigned.tables.root_digested hsignedOrdinary).1
  rw [RawCell.hashIn, if_neg hsignedOrdinary] at hhash
  have hrefs : signed.refs = received.refs := hsigned.refs_eq
  have hdepth : (graph.digest sdk.sha256 (origin rootCellIndex)).depth ≤ 256 ↔
      ∀ r ∈ signed.refs, (graph.digest sdk.sha256 (origin r.toNat)).depth < 256 := by
    rw [graph.digest_ordinary sdk.sha256 hnode, hchildren, hrefs]
    constructor
    · intro hle r hr
      exact Nat.lt_of_lt_of_le (lt_depthOf (List.mem_map.mpr
        ⟨origin r.toNat, List.mem_map.mpr ⟨r, hr, rfl⟩, rfl⟩)) hle
    · intro hlt
      apply depthOf_le
      intro depth hmem
      obtain ⟨j, hj, rfl⟩ := List.mem_map.mp hmem
      obtain ⟨r, hr, rfl⟩ := List.mem_map.mp hj
      exact hlt r hr
  rw [hchildren, ← hrefs, hdepth]
  constructor
  · intro hlt
    have hrepresentation : signed.representation p.hashed 0 = representationOf signed.label
        ((signed.refs.map fun r => origin r.toNat).map (graph.digest sdk.sha256)) :=
      RawCell.representation_eq htables.publicKeyCellIndex rfl rfl rfl fun r hr =>
        himage.childSlot reception.forward htables hreceived (hrefs ▸ hr) (Nat.le_refl _) (hlt r hr)
    refine ⟨⟨p.decoded, hdecodeWhole, rfl, rfl⟩, wholeHashed, wholeSigned, wholeTail,
      hwholeContext, hwholeSigned, ?_⟩
    rw [hprepares.toSign, rootCellIndex, hhash, ← representationOf_of_view hsignedView,
      hrepresentation]
  · rintro hseparates ⟨-, toHash', signed', rest', hcontext', hholds', htoSign⟩
    obtain rfl := Except.ok.inj (hwholeContext.symm.trans hcontext')
    obtain rfl := hwholeSigned.unique hholds'
    rw [hprepares.toSign, rootCellIndex, hhash, ← representationOf_of_view hsignedView] at htoSign
    have hsame := hseparates signed tail hsignedHolds
      (Vector.toList_inj.mp (List.append_cancel_left htoSign))
    apply depth_lt_of_representation htables.publicKeyCellIndex _ hsame
    intro r hr
    have hlater := reception.forward.later 0 received hreceived r (hrefs ▸ hr)
    have hle := reception.length_le
    simp only [maxContractCellsCount] at hle
    by_cases hstored : r.toNat < reception.cells.length
    · have := himage.depth_le reception.forward _ r.toNat _ rfl (List.getElem?_eq_getElem hstored)
      omega
    · rw [himage.absent _ _ r hreceived (hrefs ▸ hr) (by omega)]
      decide

/-! A transfer whose third cell has a chain of empty cells below it. -/

def bodyLabel : Label := ⟨0x01, 0x00, []⟩

def chainNode (size : Nat) : Nat → Label
  | 0 => (transferRoot 0x01 [0x01] one_ref).label
  | 1 => (transferGift 0x01 [0x02] one_ref).label
  | i + 2 => if i + 3 < size then bodyLabel else ⟨0x00, 0x00, []⟩

/-- The whole message: three cells, and a chain of the given depth. -/
def chainGraph (depth : Nat) : Graph (depth + 4) where
  children i := if h : i.val + 1 < depth + 4 then [⟨i.val + 1, h⟩] else []
  later i j hj := by
    split at hj
    · obtain rfl := List.mem_singleton.mp hj
      exact Nat.lt_succ_self i.val
    · cases hj
  node i := .ordinary (chainNode (depth + 4) i)

def chainNodeAt (depth i : Nat) : Fin (depth + 4) :=
  if h : i < depth + 4 then ⟨i, h⟩ else ⟨0, Nat.succ_pos _⟩

/-- The digest of a chain of empty cells. -/
def chainDigest (sha256 : List UInt8 → Hash) : Nat → Digest
  | 0 => ⟨sha256 [0x00, 0x00], 0⟩
  | depth + 1 =>
      ⟨sha256 (representationOf bodyLabel [chainDigest sha256 depth]), depth + 1⟩

theorem chainDigest_depth (sha256 : List UInt8 → Hash) (depth : Nat) :
    (chainDigest sha256 depth).depth = depth := by
  cases depth <;> rfl

theorem chainGraph_digest_next (sha256 : List UInt8 → Hash) {depth i : Nat}
    (h : i + 1 < depth + 4) :
    (chainGraph depth).digest sha256 ⟨i, Nat.lt_of_succ_lt h⟩ =
      ⟨sha256 (representationOf (chainNode (depth + 4) i)
          [(chainGraph depth).digest sha256 ⟨i + 1, h⟩]),
        1 + ((chainGraph depth).digest sha256 ⟨i + 1, h⟩).depth⟩ := by
  have hchildren : (chainGraph depth).children ⟨i, Nat.lt_of_succ_lt h⟩ = [⟨i + 1, h⟩] := dif_pos h
  rw [(chainGraph depth).digest_ordinary sha256
    (show (chainGraph depth).node ⟨i, _⟩ = .ordinary _ from rfl), hchildren]
  simp [depthOf]

theorem chainGraph_digest (sha256 : List UInt8 → Hash) {depth : Nat} (n i : Nat)
    (hi : i + n = depth + 3) (hlow : 2 ≤ i) :
    (chainGraph depth).digest sha256 ⟨i, by omega⟩ = chainDigest sha256 n := by
  induction n generalizing i with
  | zero =>
    have hlabel : chainNode (depth + 4) i = ⟨0x00, 0x00, []⟩ := by
      obtain ⟨i, rfl⟩ := Nat.exists_eq_add_of_le' hlow
      exact if_neg (show ¬ i + 3 < depth + 4 by omega)
    have hchildren : (chainGraph depth).children ⟨i, by omega⟩ = [] :=
      dif_neg (show ¬ i + 1 < depth + 4 by omega)
    rw [(chainGraph depth).digest_ordinary sha256
      (show (chainGraph depth).node ⟨i, _⟩ = .ordinary _ from rfl), hchildren]
    simp only [hlabel, chainDigest]
    rfl
  | succ n ih =>
    have hlabel : chainNode (depth + 4) i = bodyLabel := by
      obtain ⟨i, rfl⟩ := Nat.exists_eq_add_of_le' hlow
      exact if_pos (show i + 3 < depth + 4 by omega)
    rw [chainGraph_digest_next sha256 (by omega), ih (i + 1) (by omega) (by omega), hlabel,
      chainDigest_depth, chainDigest, Nat.add_comm 1]

theorem chainGraph_depth (sha256 : List UInt8 → Hash) (depth : Nat) :
    ((chainGraph depth).digest sha256 (chainNodeAt depth 0)).depth = depth + 3 := by
  have hnode : chainNodeAt depth 0 = ⟨0, by omega⟩ := dif_pos (by omega)
  rw [hnode, chainGraph_digest_next sha256 (show 0 + 1 < depth + 4 by omega),
    chainGraph_digest_next sha256 (show 1 + 1 < depth + 4 by omega),
    chainGraph_digest sha256 (depth + 1) 2 (by omega) (Nat.le_refl 2), chainDigest_depth]
  simp only
  omega

/-- What the root of the whole message takes from its child. -/
theorem chainGraph_childDigests (sha256 : List UInt8 → Hash) (depth : Nat) :
    (chainGraph depth).childDigests sha256 (chainNodeAt depth 0) =
      [⟨sha256 (representationOf (transferGift 0x01 [0x02] one_ref).label
        [chainDigest sha256 (depth + 1)]), depth + 2⟩] := by
  have hchildren : (chainGraph depth).children ⟨0, by omega⟩ = [⟨1, by omega⟩] := by
    simp [chainGraph]
  have hnode : chainNodeAt depth 0 = ⟨0, by omega⟩ := dif_pos (by omega)
  unfold Graph.childDigests
  rw [hnode, hchildren, List.map_singleton, chainGraph_digest_next sha256 (show 1 + 1 < depth + 4 by omega),
    chainGraph_digest sha256 (depth + 1) 2 (by omega) (Nat.le_refl 2), chainDigest_depth,
    show 1 + (depth + 1) = depth + 2 by omega]
  rfl

/-- The pruned branch of a chain. -/
def chainStub (hash : Hash) (depth : Nat) : RawCell where
  d1 := 0x28
  d2 := 0x48
  data := [0x01, 0x01] ++ hash.toList ++ writeUintBE 2 depth
  refs := []
  data_length := by
    rw [List.length_append, List.length_append, Vector.length_toList, writeUintBE_two]
    exact (by decide : 2 + 32 + 2 = dataSizeOf 0x48)
  refs_length := no_pruned_refs

/-- The cells that stay, with a level bit in each, and the pruned branch. -/
def prunedTransfer (hash : Hash) (depth : Nat) : List RawCell := [
  transferRoot 0x21 [0x01] one_leveled_ref, transferGift 0x21 [0x02] one_leveled_ref,
  ⟨0x21, 0x00, [], [0x03], no_data, one_leveled_ref⟩, chainStub hash depth]

/-- The first cells of the whole message. -/
def wholeTransfer : List RawCell := [
  transferRoot 0x01 [0x01] one_ref, transferGift 0x01 [0x02] one_ref,
  ⟨0x01, 0x00, [], [0x03], no_data, one_ref⟩]

/-- The four cells, by their slots. -/
theorem prunedTransfer_cases {hash : Hash} {depth i : Nat} {c : RawCell}
    (hc : (prunedTransfer hash depth)[i]? = some c) :
    i = 0 ∧ c = transferRoot 0x21 [0x01] one_leveled_ref ∨
      i = 1 ∧ c = transferGift 0x21 [0x02] one_leveled_ref ∨
      i = 2 ∧ c = ⟨0x21, 0x00, [], [0x03], no_data, one_leveled_ref⟩ ∨
      i = 3 ∧ c = chainStub hash depth := by
  obtain ⟨hlt, hc⟩ := List.getElem?_eq_some_iff.mp hc
  rw [show (prunedTransfer hash depth).length = 4 from rfl] at hlt
  subst hc
  interval_cases i <;> simp [prunedTransfer]

def wholeTransferContext : BocContext :=
  storeCells 0 (serializeCells wholeTransfer ++ []) wholeTransfer BocContext.zero

theorem prunedTransfer_prunedMessage (sha256 : List UInt8 → Hash) {depth : Nat}
    (h : depth ≤ 1024) :
    PrunedMessage sha256 (prunedTransfer (chainDigest sha256 depth).hash depth)
      (chainGraph depth) (chainNodeAt depth) wholeTransferContext
      (transferRoot 0x01 [0x01] one_ref) := by
  have hnode : ∀ i (hi : i < 4), chainNodeAt depth i = ⟨i, by omega⟩ :=
    fun i hi => dif_pos (by omega)
  have hlabel : ∀ i, i < 4 →
      (chainGraph depth).node (chainNodeAt depth i) = .ordinary (chainNode (depth + 4) i) := by
    intro i hi
    rw [hnode i hi]
    rfl
  have hchildren : ∀ i, i < 3 →
      (chainGraph depth).children (chainNodeAt depth i) = [chainNodeAt depth (i + 1)] := by
    intro i hi
    rw [hnode i (by omega), hnode (i + 1) (by omega)]
    exact dif_pos (show i + 1 < depth + 4 by omega)
  have hbody : chainNode (depth + 4) 2 = bodyLabel := by
    simp [chainNode]
  have hflags : (0x01 : UInt8).toNat &&& 0b00011111 = (0x21 : UInt8).toNat &&& 0b00011111 := by
    decide
  refine ⟨⟨fun i c hc hp => ?_, fun i c hc hp => ?_, fun i c r hc hr hle => ?_⟩, fun i hi c hc => ?_,
    wholeTransfer, parsed_storeCells _ _ _ rfl, fun i hi => ?_, rfl⟩
  · obtain ⟨rfl, rfl⟩ | ⟨rfl, rfl⟩ | ⟨rfl, rfl⟩ | ⟨rfl, rfl⟩ := prunedTransfer_cases hc
    · exact ⟨_, hlabel 0 (by decide), hflags, rfl, rfl, hchildren 0 (by decide)⟩
    · exact ⟨_, hlabel 1 (by decide), hflags, rfl, rfl, hchildren 1 (by decide)⟩
    · refine ⟨_, hlabel 2 (by decide), ?_⟩
      rw [hbody]
      exact ⟨hflags, rfl, rfl, hchildren 2 (by decide)⟩
    · exact absurd rfl hp
  · obtain ⟨rfl, rfl⟩ | ⟨rfl, rfl⟩ | ⟨rfl, rfl⟩ | ⟨rfl, rfl⟩ := prunedTransfer_cases hc
    · exact absurd hp (by decide)
    · exact absurd hp (by decide)
    · exact absurd hp (by decide)
    · rw [hnode 3 (by decide), chainGraph_digest sha256 depth 3 (by omega) (by decide),
        chainDigest_depth]
      exact ⟨h, 0x01, rfl⟩
  · -- every reference is to a cell of the list
    obtain ⟨rfl, rfl⟩ | ⟨rfl, rfl⟩ | ⟨rfl, rfl⟩ | ⟨rfl, rfl⟩ := prunedTransfer_cases hc
    · exact absurd (List.mem_singleton.mp hr ▸ hle) (by decide : ¬ 4 ≤ (0x01 : UInt8).toNat)
    · exact absurd (List.mem_singleton.mp hr ▸ hle) (by decide : ¬ 4 ≤ (0x02 : UInt8).toNat)
    · exact absurd (List.mem_singleton.mp hr ▸ hle) (by decide : ¬ 4 ≤ (0x03 : UInt8).toNat)
    · cases hr
  · obtain ⟨rfl, rfl⟩ | ⟨rfl, rfl⟩ | ⟨rfl, rfl⟩ | ⟨rfl, rfl⟩ := prunedTransfer_cases hc
    · decide
    · decide
    · decide
    · exact absurd hi (by decide)
  · have hi : i ≤ 2 := hi
    interval_cases i <;> rfl

theorem matchesWhole_prunedTransfer :
    ∃ p, (plainRequest 0).prepare testSdk zeroLocals BocContext.zero (received (serialize plainHeader
        0x04 (prunedTransfer (chainDigest testSdk.sha256 1).hash 1))) = .ok p ∧
      MatchesWhole testSdk zeroLocals (plainRequest 0) .walletV3 wholeTransferContext
        (transferRoot 0x01 [0x01] one_ref)
        ((chainGraph 1).childDigests testSdk.sha256 (chainNodeAt 1 0)) p := by
  obtain ⟨reception, p, hcells, hp, -⟩ := @exists_run_of_cells (plainRequest 0) 0x04
    (prunedTransfer (chainDigest testSdk.sha256 1).hash 1) (fun _ => True) (by decide +kernel)
    (by decide +kernel) (by decide +kernel) (by decide +kernel)
  have hpruned := prunedTransfer_prunedMessage testSdk.sha256 (show 1 ≤ 1024 by decide)
  rw [← hcells] at hpruned
  refine ⟨p, hp, (matchesWhole_when reception (by decide) hp hpruned).1 ?_⟩
  rw [rootCellIndex, chainGraph_depth]
  decide

/-- The hash of a chain of empty cells with a depth of 256. -/
def deepHash : Hash := #v[
  0x38, 0x71, 0x9A, 0x36, 0x47, 0x40, 0x30, 0xA7, 0x34, 0x6D, 0x8C, 0xEF, 0xBD, 0x27, 0x5B, 0xB1,
  0x5D, 0x79, 0x75, 0xB1, 0x73, 0x97, 0x48, 0x83, 0x5F, 0x0A, 0xE3, 0x2A, 0xBC, 0x41, 0xE5, 0xDD]

theorem chainDigest_deep : chainDigest testSdk.sha256 256 = ⟨deepHash, 256⟩ := by decide +kernel

/-- What should be signed for the deep chain. -/
def deepTransferDigest : Hash :=
  let body := testSdk.sha256 (representationOf bodyLabel [⟨deepHash, 256⟩])
  let gift := testSdk.sha256
    (representationOf (transferGift 0x01 [0x02] one_ref).label [⟨body, 257⟩])
  testSdk.sha256 (representationOf (transferRoot 0x01 [0x01] one_ref).label [⟨gift, 258⟩])

theorem pruning_changes_signature :
    ¬ ∀ (sdk : Sdk) (locals : Locals) (request : SigningRequest) (src : ByteStream) (p : Prepared)
      (family : WalletFamily) (reception : Reception src BocContext.zero) (size : Nat)
      (graph : Graph size) (origin : Nat → Fin size) (whole : BocContext) (root : RawCell),
      request.family = some family → request.prepare sdk locals BocContext.zero src = .ok p →
      PrunedMessage sdk.sha256 reception.cells graph origin whole root →
      MatchesWhole sdk locals request family whole root
        (graph.childDigests sdk.sha256 (origin rootCellIndex)) p := by
  intro hall
  obtain ⟨reception, p, hcells, hp, hdiffers⟩ := @exists_run_of_cells (plainRequest 0) 0x04
    (prunedTransfer deepHash 256) (fun p => p.toSign ≠ deepTransferDigest.toList)
    (by decide +kernel) (by decide +kernel) (by decide +kernel) (by decide +kernel)
  have hpruned := prunedTransfer_prunedMessage testSdk.sha256 (show 256 ≤ 1024 by decide)
  rw [chainDigest_deep, ← hcells] at hpruned
  obtain ⟨-, toHash, signed, rest, hcontext, hholds, htoSign⟩ := hall testSdk zeroLocals
    (plainRequest 0) _ p .walletV3 reception _ _ _ _ _ (by decide) hp hpruned
  cases hcontext
  obtain ⟨tail, htail⟩ := (parsed_storeCells wholeTransfer [] BocContext.zero rfl).holds 0 _ rfl
  obtain rfl := hholds.unique htail
  apply hdiffers
  have hplain : toSignPrefix (plainRequest 0).ctx = [] := rfl
  rw [htoSign, rootCellIndex, chainGraph_childDigests, chainDigest, chainDigest_deep, hplain,
    List.nil_append, deepTransferDigest]

end EverscaleLedger.Properties
