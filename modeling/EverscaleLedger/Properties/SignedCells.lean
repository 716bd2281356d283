import EverscaleLedger.Library.HashStore
import EverscaleLedger.Properties.Pruning

/-! What a signature binds. Two accepted requests with the same signed bytes have the same
cells wherever references lead from their roots, or a collision of the hash function can be
read off what was hashed for them. -/
namespace EverscaleLedger.Properties

open Library Source

/-! Cells as nodes of a hash store. The digest of a cell is its slot in the tables. -/

/-- The digests at the end of what is hashed: all depths, then all hashes. -/
def digestBlocks {α : Type} (depthBytes : α → List UInt8) (children : List (Hash × α)) :
    List UInt8 :=
  ((children.map Prod.snd).flatMap depthBytes) ++ ((children.map Prod.fst).flatMap Vector.toList)

/-- The bytes that are hashed for a cell that is given by its view. -/
def encodeCell (view : Nat × UInt8 × List UInt8) (children : List (Hash × UInt8)) : List UInt8 :=
  [UInt8.ofNat view.1, view.2.1] ++ (view.2.2 ++ digestBlocks (fun depth => [0, depth]) children)

/-- The sizes are those that the descriptor bytes announce. -/
structure FitsView (view : Nat × UInt8 × List UInt8) (children : List (Hash × UInt8)) : Prop where
  flags : view.1 < 256
  data : view.2.2.length = dataSizeOf view.2.1
  children : children.length = view.1 &&& 7

theorem length_flatMap_of_length {α β : Type} {f : α → List β} {length : Nat}
    (hlength : ∀ item, (f item).length = length) (items : List α) :
    (items.flatMap f).length = items.length * length := by
  rw [List.length_flatMap, List.map_congr_left fun item _ => hlength item, List.map_const',
    List.sum_replicate, smul_eq_mul]

/-- Blocks of one length can be told apart in a list of them. -/
theorem flatMap_injective {α β : Type} {f : α → List β} {length : Nat}
    (hlength : ∀ item, (f item).length = length) (hf : Function.Injective f) {items items' : List α}
    (hcount : items.length = items'.length) (h : items.flatMap f = items'.flatMap f) :
    items = items' := by
  induction items generalizing items' with
  | nil => exact (List.eq_nil_of_length_eq_zero hcount.symm).symm
  | cons item rest ih =>
    cases items' with
    | nil => cases hcount
    | cons item' rest' =>
      rw [List.flatMap_cons, List.flatMap_cons] at h
      obtain ⟨hitem, hrest⟩ := List.append_inj h ((hlength item).trans (hlength item').symm)
      rw [hf hitem, ih (Nat.succ.inj hcount) hrest]

theorem eq_of_map_fst_snd {α β : Type} {items items' : List (α × β)}
    (hfst : items.map Prod.fst = items'.map Prod.fst)
    (hsnd : items.map Prod.snd = items'.map Prod.snd) : items = items' := by
  have hzip := congrArg₂ List.zip hfst hsnd
  simpa [← List.unzip_fst, ← List.unzip_snd, List.zip_unzip] using hzip

theorem digestBlocks_injective {α : Type} {depthBytes : α → List UInt8} {length : Nat}
    (hlength : ∀ depth, (depthBytes depth).length = length)
    (hinjective : Function.Injective depthBytes) {children children' : List (Hash × α)}
    (hcount : children.length = children'.length)
    (h : digestBlocks depthBytes children = digestBlocks depthBytes children') :
    children = children' := by
  have hsndCount : (children.map Prod.snd).length = (children'.map Prod.snd).length := by
    rw [List.length_map, List.length_map, hcount]
  have hfstCount : (children.map Prod.fst).length = (children'.map Prod.fst).length := by
    rw [List.length_map, List.length_map, hcount]
  obtain ⟨hdepths, hhashes⟩ := List.append_inj h
    (by rw [length_flatMap_of_length hlength, length_flatMap_of_length hlength, hsndCount])
  have hsnd := flatMap_injective hlength hinjective hsndCount hdepths
  have hfst := flatMap_injective (fun hash : Hash => hash.length_toList)
    (fun hash hash' heq => Vector.toList_inj.mp heq) hfstCount hhashes
  exact eq_of_map_fst_snd hfst hsnd

theorem encodeCell_injective {view view' : Nat × UInt8 × List UInt8}
    {children children' : List (Hash × UInt8)} (hfits : FitsView view children)
    (hfits' : FitsView view' children') (h : encodeCell view children = encodeCell view' children') :
    view = view' ∧ children = children' := by
  obtain ⟨flags, d2, data⟩ := view
  obtain ⟨flags', d2', data'⟩ := view'
  simp only [encodeCell, List.cons_append, List.nil_append, List.cons.injEq] at h
  obtain ⟨hflags, rfl, hbytes⟩ := h
  have hflags := congrArg UInt8.toNat hflags
  rw [UInt8.toNat_ofNat_of_lt' hfits.flags, UInt8.toNat_ofNat_of_lt' hfits'.flags] at hflags
  obtain rfl : flags = flags' := hflags
  obtain ⟨rfl, hblocks⟩ := List.append_inj hbytes (hfits.data.trans hfits'.data.symm)
  have hlength : ∀ depth : UInt8, [0, depth].length = 2 := fun _ => rfl
  have hinjective : Function.Injective fun depth : UInt8 => [0, depth] :=
    fun depth depth' heq => (List.cons.inj (List.cons.inj heq).2).1
  exact ⟨rfl, digestBlocks_injective hlength hinjective
    (hfits.children.trans hfits'.children.symm) hblocks⟩

/-- Slots of the tables: hash and depth. -/
def cellScheme (sha256 : List UInt8 → Hash) :
    HashScheme (Nat × UInt8 × List UInt8) (List UInt8) (Hash × UInt8) Hash where
  Fits := FitsView
  encode := encodeCell
  hash := sha256
  hashOf := Prod.fst
  encode_injective := encodeCell_injective

def slotOf (hashed : BocContext) (j : Nat) : Hash × UInt8 := (hashed.hashes j, hashed.cellDepth j)

namespace RawCell

variable (c : RawCell) (hashed : BocContext)

def children : List Nat := c.refs.map UInt8.toNat

theorem flags_and_seven : (c.d1.toNat &&& 0b00011111) &&& 7 = refsCountOf c.d1 := by
  rw [Nat.and_assoc]
  rfl

theorem fitsView (digest : Nat → Hash × UInt8) : FitsView c.view (c.children.map digest) where
  flags := by
    have hle : c.d1.toNat &&& 0b00011111 ≤ 0b00011111 := Nat.and_le_right
    simp only [view]
    omega
  data := c.data_length
  children := by simp [children, view, flags_and_seven, c.refs_length]

theorem encodeCell_view (hdata : c.hashedData hashed i = c.data) :
    encodeCell c.view (c.children.map (slotOf hashed)) = c.representation hashed i := by
  simp [encodeCell, digestBlocks, view, children, slotOf, representation, hdata, depthBytes,
    hashBytes, List.flatMap_map, Function.comp_def]

end RawCell

/-- What was hashed for the ordinary cells of two lists, in two runs. -/
def CellsCollide (sdk : Sdk) (hashedA : BocContext) (as : List RawCell) (hashedB : BocContext)
    (bs : List RawCell) : Prop :=
  ∃ (i j : Nat) (c d : RawCell), as[i]? = some c ∧ bs[j]? = some d ∧ ¬ c.Pruned ∧ ¬ d.Pruned ∧
    c.representation hashedA i ≠ d.representation hashedB j ∧
    sdk.sha256 (c.representation hashedA i) = sdk.sha256 (d.representation hashedB j)

/-- The cell that references lead to, given as the numbers of references. -/
def cellAlong (cells : List RawCell) (i : Nat) : List Nat → Option RawCell
  | [] => cells[i]?
  | k :: path => do
      let c ← cells[i]?
      let r ← c.refs[k]?
      cellAlong cells r.toNat path

/-- Ordinary cells at the end of one path have the same descriptors and data. -/
def AgreeAlong (as bs : List RawCell) : Prop :=
  ∀ (path : List Nat) (c d : RawCell), cellAlong as rootCellIndex path = some c →
    cellAlong bs rootCellIndex path = some d → ¬ c.Pruned → ¬ d.Pruned → c.view = d.view

/-- The slots of the ordinary cells of a list are computed over their own data. -/
structure CellsHashed (sdk : Sdk) (hashed : BocContext) (cells : List RawCell) : Prop where
  data : ∀ i (c : RawCell), cells[i]? = some c → c.hashedData hashed i = c.data
  hash : ∀ i (c : RawCell), cells[i]? = some c → ¬ c.Pruned →
    hashed.hashes i = sdk.sha256 (c.representation hashed i)

namespace CellsHashed

variable {sdk : Sdk} {hashedA hashedB hashed : BocContext} {as bs cells : List RawCell}

/-- The node of a cell. Of a pruned branch, and of what lies behind the list, only the
slot is known. -/
def nodeAt (cells : List RawCell) (i : Nat) : Option ((Nat × UInt8 × List UInt8) × List Nat) :=
  (cells[i]?.filter fun c => ¬ c.Pruned).map fun c => (c.view, c.children)

theorem nodeAt_eq_some {i : Nat} {view : Nat × UInt8 × List UInt8} {children : List Nat} :
    nodeAt cells i = some (view, children) ↔
      ∃ c : RawCell, cells[i]? = some c ∧ ¬ c.Pruned ∧ c.view = view ∧ c.children = children := by
  simp [nodeAt, Option.filter_eq_some_iff, and_assoc]

/-- The received cells as a store, with the slots of the tables for digests. -/
def store (h : CellsHashed sdk hashed cells) : HashStore (cellScheme sdk.sha256) Nat where
  node := nodeAt cells
  digest := slotOf hashed
  fits hnode := by
    obtain ⟨c, -, -, rfl, rfl⟩ := nodeAt_eq_some.mp hnode
    exact c.fitsView (slotOf hashed)
  hashed hnode := by
    obtain ⟨c, hc, hp, rfl, rfl⟩ := nodeAt_eq_some.mp hnode
    exact (h.hash _ c hc hp).trans
      (congrArg sdk.sha256 (c.encodeCell_view hashed (h.data _ c hc)).symm)

theorem hashed_store (h : CellsHashed sdk hashed cells) {start : Nat} {value : List UInt8}
    (hvalue : h.store.Hashed start value) : ∃ (i : Nat) (c : RawCell), cells[i]? = some c ∧
      ¬ c.Pruned ∧ value = c.representation hashed i := by
  obtain ⟨_, i, view, children, -, hnode, rfl⟩ := hvalue
  obtain ⟨c, hc, hp, rfl, rfl⟩ := nodeAt_eq_some.mp hnode
  exact ⟨i, c, hc, hp, c.encodeCell_view hashed (h.data i c hc)⟩

theorem collide (ha : CellsHashed sdk hashedA as) (hb : CellsHashed sdk hashedB bs)
    {i j : Nat} (h : ha.store.Collides hb.store i j) : CellsCollide sdk hashedA as hashedB bs := by
  obtain ⟨value, value', hvalue, hvalue', hne, heq⟩ := h
  obtain ⟨i, c, hc, hcp, rfl⟩ := ha.hashed_store hvalue
  obtain ⟨j, d, hd, hdp, rfl⟩ := hb.hashed_store hvalue'
  exact ⟨i, j, c, d, hc, hd, hcp, hdp, hne, heq⟩

/-- A path through a list of cells is one through the store, up to an ordinary cell. -/
theorem follow_of_cellAlong (h : CellsHashed sdk hashed cells) {path : List Nat} {i : Nat}
    {c : RawCell} (hc : cellAlong cells i path = some c) (hp : ¬ c.Pruned) :
    ∃ j, h.store.follow i path = some j ∧ h.store.node j = some (c.view, c.children) := by
  induction path generalizing i with
  | nil => exact ⟨i, rfl, nodeAt_eq_some.mpr ⟨c, hc, hp, rfl, rfl⟩⟩
  | cons k path ih =>
    simp only [cellAlong, Option.bind_eq_bind, Option.bind_eq_some_iff] at hc
    obtain ⟨parent, hparent, r, hr, hrest⟩ := hc
    have hordinary := RawCell.not_pruned_of_mem_refs (List.mem_of_getElem? hr)
    obtain ⟨j, hfollow, hnode⟩ := ih hrest
    refine ⟨j, ?_, hnode⟩
    have hparentNode : h.store.node i = some (parent.view, parent.children) :=
      nodeAt_eq_some.mpr ⟨parent, hparent, hordinary, rfl, rfl⟩
    rw [HashStore.follow_cons hparentNode (j := r.toNat) (by simp [RawCell.children, hr]), hfollow]

/-- Roots with one hash have the same cells at the ends of one path. -/
theorem view_eq_or_collide (ha : CellsHashed sdk hashedA as) (hb : CellsHashed sdk hashedB bs)
    {i j : Nat} (hhash : hashedA.hashes i = hashedB.hashes j) {path : List Nat} {c d : RawCell}
    (hc : cellAlong as i path = some c) (hd : cellAlong bs j path = some d) (hcp : ¬ c.Pruned)
    (hdp : ¬ d.Pruned) : CellsCollide sdk hashedA as hashedB bs ∨ c.view = d.view := by
  obtain ⟨i', hfollow, hnode⟩ := ha.follow_of_cellAlong hc hcp
  obtain ⟨j', hfollow', hnode'⟩ := hb.follow_of_cellAlong hd hdp
  exact (HashStore.follow_node_or_collides hhash hfollow hfollow' hnode hnode').imp
    (collide ha hb) And.left

end CellsHashed

section

variable {sdk : Sdk} {locals : Locals} {request : SigningRequest} {src : ByteStream}
  {bc toHash : BocContext} {reception : Reception src bc} {family : WalletFamily}
  {rootSlice : SliceData} {received root : RawCell} {p : Prepared}

/-- No cell is added or taken away between parsing and hashing. -/
theorem Prepares.cellsCount_eq
    (h : Prepares sdk locals request reception.parsed family rootSlice toHash p) :
    p.hashed.cellsCount = reception.cells.length := by
  obtain ⟨received, root, -, hsigned⟩ := h.signedRoot
  obtain ⟨rest, hroot⟩ := reception.parsed_cells.holds rootCellIndex received hsigned.received_eq
  obtain ⟨-, -, hcount, -⟩ := contextToHash_ok hroot h.context
  rw [hsigned.tables.same.cellsCount, hcount, reception.parsed_cells.count]

/-- The cells in memory are the received ones, but for the root. -/
theorem Prepares.parsed_hashed
    (h : Prepares sdk locals request reception.parsed family rootSlice toHash p)
    (hsigned : SignedRoot sdk reception family received root toHash p) :
    Parsed p.hashed (reception.cells.set rootCellIndex root) where
  count := by rw [h.cellsCount_eq, List.length_set]
  holds i c hc := by
    by_cases hi : i = rootCellIndex
    · subst hi
      have hpos : rootCellIndex < reception.cells.length :=
        (List.getElem?_eq_some_iff.mp hsigned.received_eq).1
      rw [List.getElem?_set_self hpos] at hc
      obtain rfl := Option.some.inj hc
      exact hsigned.holds_root
    · rw [List.getElem?_set_ne (Ne.symm hi)] at hc
      exact hsigned.holds i c (Nat.pos_of_ne_zero hi) hc

theorem Reception.parsed_hashed (reception : Reception src bc) (hfamily : request.family = some family)
    (hne : family ≠ .prefixedContract) (h : request.prepare sdk locals bc src = .ok p) :
    Parsed p.hashed reception.cells := by
  obtain ⟨received, root, toHash, hreceived, hprepares, hsigned⟩ := reception.prepares hfamily h
  have hparsed := hprepares.parsed_hashed hsigned
  obtain ⟨hpos, rfl⟩ := List.getElem?_eq_some_iff.mp hreceived
  rwa [hsigned.unprefixed hne, List.set_getElem_self] at hparsed

end

/-- The cells as they were in memory when an accepted request was hashed. -/
theorem cellsHashed_of_prepare {sdk : Sdk} {locals : Locals} {request : SigningRequest}
    {bc : BocContext} {src : ByteStream} {p : Prepared}
    (h : request.prepare sdk locals bc src = .ok p) (hindex : bc.publicKeyCellIndex = 0)
    {cells : List RawCell} (hcells : Parsed p.hashed cells) : CellsHashed sdk p.hashed cells := by
  obtain ⟨next, parsed, family, rootSlice, toHash, hparse, hprepares⟩ := prepare_ok h
  obtain ⟨reception, rfl⟩ := exists_reception hparse
  obtain ⟨received, root, -, hsigned⟩ := hprepares.signedRoot
  have hkey : p.hashed.publicKeyCellIndex = 0 := by
    rw [hsigned.tables.same.publicKeyCellIndex, hsigned.publicKeyCellIndex, hindex]
  refine ⟨fun i c _ => if_neg fun hand => hand.1 hkey, fun i c hc hp => ?_⟩
  obtain ⟨rest, hrest⟩ := hcells.holds i c hc
  by_cases hi : i = 0
  · subst hi
    obtain ⟨tail, htail⟩ := hsigned.holds_root
    obtain rfl := hrest.unique htail
    exact (hsigned.tables.root_digested hp).1.trans (if_neg hp)
  · have hlength : i < reception.cells.length := by
      rw [← hprepares.cellsCount_eq, hcells.count]
      exact (List.getElem?_eq_some_iff.mp hc).1
    obtain ⟨tail, htail⟩ := hsigned.holds i _ (by omega) (List.getElem?_eq_getElem hlength)
    obtain rfl := hrest.unique htail
    exact (hsigned.tables.digested i _ (by omega) (List.getElem?_eq_getElem hlength)).1.trans
      (if_neg hp)

/-- Signed bytes are the chain id, where one is signed, and the hash of the root. -/
theorem toSign_eq {sdk : Sdk} {locals : Locals} {request : SigningRequest} {bc : BocContext}
    {src : ByteStream} {p : Prepared} (h : request.prepare sdk locals bc src = .ok p) :
    p.toSign = toSignPrefix request.ctx ++ (p.hashed.hashes rootCellIndex).toList := by
  obtain ⟨next, parsed, family, rootSlice, toHash, -, hprepares⟩ := prepare_ok h
  exact hprepares.toSign

theorem toSign_inj {sdk : Sdk} {localsA localsB : Locals} {requestA requestB : SigningRequest}
    {bcA bcB : BocContext} {srcA srcB : ByteStream} {p q : Prepared}
    (hp : requestA.prepare sdk localsA bcA srcA = .ok p)
    (hq : requestB.prepare sdk localsB bcB srcB = .ok q) (h : p.toSign = q.toSign) :
    toSignPrefix requestA.ctx = toSignPrefix requestB.ctx ∧
      p.hashed.hashes rootCellIndex = q.hashed.hashes rootCellIndex := by
  rw [toSign_eq hp, toSign_eq hq] at h
  obtain ⟨hchain, hhash⟩ := List.append_inj' h (by rw [Vector.length_toList, Vector.length_toList])
  exact ⟨hchain, Vector.toList_inj.mp hhash⟩

/-- Signatures bind the whole message: what two requests with the same signed bytes have at
the end of one path of references is the same cell, up to level bits. -/
theorem signed_cells_bound {sdk : Sdk} {localsA localsB : Locals}
    {requestA requestB : SigningRequest} {bcA bcB : BocContext} {srcA srcB : ByteStream}
    {p q : Prepared} {as bs : List RawCell}
    (hp : requestA.prepare sdk localsA bcA srcA = .ok p)
    (hq : requestB.prepare sdk localsB bcB srcB = .ok q)
    (hindexA : bcA.publicKeyCellIndex = 0) (hindexB : bcB.publicKeyCellIndex = 0)
    (has : Parsed p.hashed as) (hbs : Parsed q.hashed bs) (h : p.toSign = q.toSign) :
    CellsCollide sdk p.hashed as q.hashed bs ∨
      toSignPrefix requestA.ctx = toSignPrefix requestB.ctx ∧ AgreeAlong as bs := by
  obtain ⟨hchain, hhash⟩ := toSign_inj hp hq h
  have ha := cellsHashed_of_prepare hp hindexA has
  have hb := cellsHashed_of_prepare hq hindexB hbs
  by_cases hcollide : CellsCollide sdk p.hashed as q.hashed bs
  · exact Or.inl hcollide
  · refine Or.inr ⟨hchain, fun path c d hc hd hcp hdp => ?_⟩
    exact (ha.view_eq_or_collide hb hhash hc hd hcp hdp).resolve_left hcollide

/-! One transfer, sent in two ways. -/

/-- The transfer with a cell behind it that nothing refers to. -/
def paddedTransfer : List RawCell := attachedTransfer ++ [⟨0x00, 0x00, [], [], no_data, no_refs⟩]

/-- Two lists of cells on which two requests run, with a property of both results. -/
theorem exists_runs_of_cells {request request' : SigningRequest} {announced announced' : UInt8}
    {as bs : List RawCell} {property : Prepared → Prepared → Prop}
    (hadmitted : AdmittedFrom 0 announced.toNat as) (hadmitted' : AdmittedFrom 0 announced'.toNat bs)
    (hcomplete : as ≠ [] ∧ as.length ≤ announced.toNat)
    (hcomplete' : bs ≠ [] ∧ bs.length ≤ announced'.toNat)
    (hbound : as.length ≤ maxContractCellsCount ∧ bs.length ≤ maxContractCellsCount)
    (hruns : Succeeds (do
      let p ← request.prepare testSdk zeroLocals BocContext.zero
        (received (serialize plainHeader announced as))
      let q ← request'.prepare testSdk zeroLocals BocContext.zero
        (received (serialize plainHeader announced' bs))
      pure (p, q)) fun runs => property runs.1 runs.2) :
    ∃ (ra : Reception (received (serialize plainHeader announced as)) BocContext.zero)
      (rb : Reception (received (serialize plainHeader announced' bs)) BocContext.zero)
      (p q : Prepared), ra.cells = as ∧ rb.cells = bs ∧
        request.prepare testSdk zeroLocals BocContext.zero
          (received (serialize plainHeader announced as)) = .ok p ∧
        request'.prepare testSdk zeroLocals BocContext.zero
          (received (serialize plainHeader announced' bs)) = .ok q ∧ property p q := by
  obtain ⟨ra, -, -, hra⟩ := exists_reception_of_cells plainHeader announced as BocContext.zero
    hadmitted hcomplete hbound.1
  obtain ⟨rb, -, -, hrb⟩ := exists_reception_of_cells plainHeader announced' bs BocContext.zero
    hadmitted' hcomplete' hbound.2
  obtain ⟨⟨p, q⟩, hpq, hproperty⟩ := hruns.exists
  simp only [bind_eq_ok, pure_eq_ok, Prod.mk.injEq] at hpq
  obtain ⟨_, hp, _, hq, rfl, rfl⟩ := hpq
  exact ⟨ra, rb, _, _, hra, hrb, hp, hq, hproperty⟩

/-- A transfer, and the same one with a cell behind it. -/
theorem exists_padded_runs :
    ∃ p q, (plainRequest 0).prepare testSdk zeroLocals BocContext.zero
        (received (serialize plainHeader 0x02 attachedTransfer)) = .ok p ∧
      (plainRequest 0).prepare testSdk zeroLocals BocContext.zero
        (received (serialize plainHeader 0x03 paddedTransfer)) = .ok q ∧
      Parsed p.hashed attachedTransfer ∧ Parsed q.hashed paddedTransfer ∧
      p.toSign = q.toSign ∧ p.decoded.bodySlice = none ∧ q.decoded.bodySlice = none := by
  obtain ⟨ra, rb, p, q, hra, hrb, hp, hq, hsign, hbodyA, hbodyB⟩ :=
    @exists_runs_of_cells (plainRequest 0) (plainRequest 0) 0x02 0x03 attachedTransfer paddedTransfer
      (fun p q => p.toSign = q.toSign ∧ p.decoded.bodySlice.isNone ∧ q.decoded.bodySlice.isNone)
      (by decide) (by decide) (by decide) (by decide) (by decide) (by decide +kernel)
  have has := ra.parsed_hashed (show _ = some .walletV3 by decide) (by decide) hp
  have hbs := rb.parsed_hashed (show _ = some .walletV3 by decide) (by decide) hq
  rw [hra] at has
  rw [hrb] at hbs
  exact ⟨p, q, hp, hq, has, hbs, hsign, Option.isNone_iff_eq_none.mp hbodyA,
    Option.isNone_iff_eq_none.mp hbodyB⟩

theorem signed_cells_bound_padded :
    ∃ p q, (plainRequest 0).prepare testSdk zeroLocals BocContext.zero
        (received (serialize plainHeader 0x02 attachedTransfer)) = .ok p ∧
      (plainRequest 0).prepare testSdk zeroLocals BocContext.zero
        (received (serialize plainHeader 0x03 paddedTransfer)) = .ok q ∧
      (CellsCollide testSdk p.hashed attachedTransfer q.hashed paddedTransfer ∨
        toSignPrefix (plainRequest 0).ctx = toSignPrefix (plainRequest 0).ctx ∧
          AgreeAlong attachedTransfer paddedTransfer) := by
  obtain ⟨p, q, hp, hq, has, hbs, hsign, -⟩ := exists_padded_runs
  exact ⟨p, q, hp, hq, signed_cells_bound hp hq rfl rfl has hbs hsign⟩

end EverscaleLedger.Properties
