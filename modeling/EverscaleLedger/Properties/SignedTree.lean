import EverscaleLedger.Properties.Flows
import EverscaleLedger.Properties.StateInit

/-! What `prepare_to_sign` signs, as the hash of a tree that is given by bits: the tree
that was received, with the account address in front of the bits of its root where the
wallet signs one. -/
namespace EverscaleLedger.Properties

open Library Source

/-- What a wallet signs in front of the bits of a root. -/
def SigningRequest.front (request : SigningRequest) : WalletFamily → List Bool
  | .walletV3 | .contract => []
  | .prefixedContract => addressPrefix request.wc request.prependAddress

/-- There is nothing behind a whole list of cells. -/
def nothingBehind : Digest := ⟨zeroHash, 0⟩

/-- The tree of a list of cells, with bits in front of those of the root. -/
def signedTree (front : List Bool) (root : RawCell) (below : List RawCell) : CellTree :=
  .cell (front ++ root.bits)
    (root.refs.map fun r => treeFrom nothingBehind (root :: below) below.length r.toNat)

/-- The trees below the root do not depend on it. -/
theorem treeFrom_root {behind : Digest} {first second : RawCell} {below : List RawCell}
    (hforward : ∀ i (c : RawCell), (first :: below)[i]? = some c → ∀ r ∈ c.refs, i < r.toNat)
    {height i : Nat} (hi : 0 < i) :
    treeFrom behind (second :: below) height i = treeFrom behind (first :: below) height i := by
  induction height generalizing i with
  | zero => rfl
  | succ height ih =>
    obtain ⟨j, rfl⟩ : ∃ j, i = j + 1 := ⟨i - 1, by omega⟩
    unfold treeFrom
    simp only [List.getElem?_cons_succ]
    cases hc : below[j]? with
    | none => rfl
    | some c =>
      have hchildren : ∀ r ∈ c.refs, treeFrom behind (second :: below) height r.toNat =
          treeFrom behind (first :: below) height r.toNat := by
        intro r hr
        have hlater := hforward (j + 1) c hc r hr
        exact ih (by omega)
      simp only [List.map_congr_left hchildren]

section

variable {cellBuffer address rest tail : List UInt8} {cell result : Cell} {c root : RawCell}
  {bits : List Bool} {wc : UInt8}

/-- A root that had a completion tag encodes the address and its own bits after the
rewriting. -/
theorem prepended_encodes (hc : Holds cell c rest) (hbuffer : cellBuffer.length = cellBufferSize)
    (haddress : address.length = 32) (hencodes : c.Encodes bits c.refs)
    (hrefs : c.refs.length ≤ maxReferencesCount) (hoff : bits.length % 8 ≠ 0)
    (h : prependAddressToCell cellBuffer cell wc address = .ok result)
    (hroot : Holds result root tail) :
    root.Encodes (addressPrefix wc address ++ bits) c.refs := by
  have hlength := hencodes.length_data
  have hdata : c.data ≠ [] := by
    intro hnil
    rw [hnil, List.length_nil] at hlength
    omega
  have hbitLen := c.bitLen_eq
  rw [hencodes.bits_eq] at hbitLen
  have hroom := prependAddressToCell_room hc hbuffer haddress hdata hbitLen hrefs h
  obtain ⟨result', root', tail', hresult, hholds, -, -, hrefs', hd2, -, hbits⟩ :=
    prependAddressToCell_root wc hc hbuffer haddress hdata hbitLen hrefs hroom.1 hroom.2
  obtain rfl := Except.ok.inj (h.symm.trans hresult)
  obtain rfl := hroot.unique hholds
  have hfront := length_addressPrefix wc haddress
  rw [hencodes.ofBytes_data, take_completed hfront hoff] at hbits
  refine ⟨?_, ?_, hrefs'⟩
  · rw [hd2, d2OfBitLen_toNat (by omega), List.length_append, hfront, Nat.add_comm bits.length]
  · rw [← hbits, Bits.pack_ofBytes]

end

/-- The signed root is the canonical cell of the bits that are signed. -/
theorem SignedRoot.encodes {sdk : Sdk} {locals : Locals} {request : SigningRequest} {src : ByteStream}
    {bc toHash : BocContext} {reception : Reception src bc} {family : WalletFamily}
    {received root : RawCell} {rootSlice : SliceData} {p : Prepared}
    (h : SignedRoot sdk reception family received root toHash p)
    (hprepares : Prepares sdk locals request reception.parsed family rootSlice toHash p)
    (hcanonical : received.Canonical) (haddress : request.prependAddress.length = addressLength)
    (hoff : family = .prefixedContract → received.bits.length % 8 ≠ 0) :
    root.Encodes (request.front family ++ received.bits) received.refs := by
  cases family with
  | walletV3 =>
    rw [h.unprefixed (by decide)]
    exact hcanonical.encodes
  | contract =>
    rw [h.unprefixed (by decide)]
    exact hcanonical.encodes
  | prefixedContract =>
    obtain ⟨rest, hrest⟩ := reception.parsed_cells.holds 0 _ h.received_eq
    obtain ⟨tail, hroot⟩ := h.holds_root
    rw [h.tables.same.cells] at hroot
    have hcontext := hprepares.context
    simp only [contextToHash, bind_eq_ok, pure_eq_ok] at hcontext
    obtain ⟨cell, hcell, rfl⟩ := hcontext
    have hroot : Holds cell root tail := by simpa [BocContext.setCell] using hroot
    exact prepended_encodes hrest (Vector.length_toList ..) haddress hcanonical.encodes
      hcanonical.refs_le (hoff rfl) hcell hroot

theorem RawCell.Canonical.not_pruned {c : RawCell} (h : c.Canonical) : ¬ c.Pruned := by
  intro hpruned
  have hrefs := h.refs_le
  have hvalue : (UInt8.ofNat c.refs.length).toNat = 40 := by
    rw [← h.d1, hpruned]
    rfl
  rw [UInt8.toNat_ofNat'] at hvalue
  simp only [maxReferencesCount] at hrefs
  omega

/-- The slot of a canonical cell, when no cell is taken for that of the public key. -/
theorem Digested.slot {sdk : Sdk} {hashed : BocContext} {i : Nat} {c : RawCell}
    (h : Digested sdk hashed 0 i c) (hcanonical : c.Canonical)
    (hindex : hashed.publicKeyCellIndex = 0) :
    hashed.hashes i = sdk.sha256 ([UInt8.ofNat (c.d1.toNat &&& 0b00011111), c.d2] ++ c.data ++
        c.depthBytes hashed ++ c.hashBytes hashed) ∧
      hashed.cellDepth i = depthOver hashed 0 c.refs := by
  obtain ⟨hhash, hdepth⟩ := h
  have hown : c.hashedData hashed i = c.data := if_neg fun hkey => hkey.1 hindex
  rw [RawCell.hashIn, if_neg hcanonical.not_pruned, RawCell.representation, hown] at hhash
  rw [RawCell.depthIn, if_neg hcanonical.not_pruned] at hdepth
  exact ⟨hhash, hdepth⟩

/-- Canonical cells that refer to later cells of their list. -/
structure WholeTree (cells : List RawCell) : Prop where
  canonical : ∀ c ∈ cells, c.Canonical
  refs : ∀ c ∈ cells, ∀ r ∈ c.refs, r.toNat < cells.length

/-- The hash of a signed root is that of the tree of its bits. -/
theorem SignedRoot.hash_eq {sdk : Sdk} {src : ByteStream} {toHash : BocContext}
    {reception : Reception src BocContext.zero} {family : WalletFamily} {root signed : RawCell}
    {p : Prepared} (h : SignedRoot sdk reception family root signed toHash p) {front : List Bool}
    (hencodes : signed.Encodes (front ++ root.bits) root.refs) {below : List RawCell}
    (hcells : reception.cells = root :: below) (hwhole : WholeTree (root :: below)) :
    p.hashed.hashes rootCellIndex = ((signedTree front root below).digest sdk.sha256).hash := by
  have hroot := hwhole.canonical root List.mem_cons_self
  have hbits : signed.bits = front ++ root.bits := hencodes.bits_eq
  have hsigned : signed.Canonical := by
    refine ⟨?_, ?_, ?_⟩
    · rw [h.d1_eq, h.refs_eq]
      exact hroot.d1
    · rw [h.refs_eq]
      exact hroot.refs_le
    · rw [hbits, h.refs_eq]
      exact hencodes
  have hcanonical : ∀ c ∈ signed :: below, c.Canonical := by
    intro c hc
    cases hc with
    | head => exact hsigned
    | tail _ hc => exact hwhole.canonical c (List.mem_cons_of_mem _ hc)
  have hforward : ∀ i (c : RawCell), (root :: below)[i]? = some c → ∀ r ∈ c.refs, i < r.toNat := by
    intro i c hc
    exact reception.forward.later i c (hcells ▸ hc)
  have hrefs : ∀ i (c : RawCell), (signed :: below)[i]? = some c → ∀ r ∈ c.refs,
      i < r.toNat ∧ r.toNat ≤ (signed :: below).length := by
    intro i c hc r hr
    cases i with
    | zero =>
      obtain rfl := Option.some.inj hc
      rw [h.refs_eq] at hr
      exact ⟨hforward 0 root rfl r hr, Nat.le_of_lt (hwhole.refs root List.mem_cons_self r hr)⟩
    | succ j =>
      have hmem : c ∈ root :: below :=
        List.mem_cons_of_mem root (List.mem_of_getElem? (i := j) hc)
      exact ⟨hforward (j + 1) c hc r hr, Nat.le_of_lt (hwhole.refs c hmem r hr)⟩
  have hclear : ∀ j, toHash.cellDepth j = 0 ∧ toHash.hashes j = zeroHash := by
    intro j
    rw [h.cellDepth, h.hashes]
    exact ⟨rfl, rfl⟩
  have hindex : p.hashed.publicKeyCellIndex = 0 := by
    rw [h.tables.same.publicKeyCellIndex, h.publicKeyCellIndex]
    rfl
  have hslots : ∀ i (c : RawCell), (signed :: below)[i]? = some c →
      Digested sdk p.hashed 0 i c := by
    intro i c hc
    cases i with
    | zero =>
      obtain rfl := Option.some.inj hc
      rw [← (hclear 0).1]
      exact h.tables.root_digested hsigned.not_pruned
    | succ j =>
      rw [← (hclear (j + 1)).1]
      exact h.tables.digested (j + 1) c (by omega) (hcells ▸ hc)
  have hbehind : SlotHolds p.hashed (signed :: below).length nothingBehind := by
    obtain ⟨hhash, hdepth⟩ := h.tables.outside (signed :: below).length
      (by rw [hcells]; exact Nat.le_refl _)
    rw [SlotHolds, hhash, hdepth, (hclear _).1, (hclear _).2]
    exact ⟨rfl, rfl⟩
  have hheight : nothingBehind.depth + (below.length + 1) < 256 := by
    have hlength : (root :: below).length ≤ maxContractCellsCount := hcells ▸ reception.length_le
    simp only [List.length_cons, maxContractCellsCount] at hlength
    change 0 + (below.length + 1) < 256
    omega
  have htree : treeFrom nothingBehind (signed :: below) (below.length + 1) 0 =
      signedTree front root below := by
    unfold treeFrom signedTree
    simp only [List.getElem?_cons_zero]
    rw [hbits, h.refs_eq, List.map_congr_left fun r hr =>
      treeFrom_root hforward (hforward 0 root rfl r hr)]
  rw [← htree]
  exact (treeFrom_slotHolds hcanonical hrefs
    (fun i c hc => (hslots i c hc).slot (hcanonical c (List.mem_of_getElem? hc)) hindex)
    hbehind (Nat.zero_le _) (by simp) hheight).1

/-- What is signed for a whole tree of canonical cells is the representation hash of the
tree, with the address in front of the bits of its root where the wallet signs one. -/
theorem signed_tree {sdk : Sdk} {locals : Locals} {request : SigningRequest} {family : WalletFamily}
    (hfamily : request.family = some family)
    (haddress : request.prependAddress.length = addressLength) {src : ByteStream}
    (reception : Reception src BocContext.zero) {root : RawCell} {below : List RawCell}
    (hcells : reception.cells = root :: below) (hwhole : WholeTree (root :: below))
    (hoff : family = .prefixedContract → root.bits.length % 8 ≠ 0) {p : Prepared}
    (h : request.prepare sdk locals BocContext.zero src = .ok p) :
    p.toSign = toSignPrefix request.ctx ++
      ((signedTree (request.front family) root below).digest sdk.sha256).hash.toList := by
  obtain ⟨received, signed, toHash, hreceived, hprepares, hsigned⟩ := reception.prepares hfamily h
  rw [hcells] at hreceived
  obtain rfl := Option.some.inj hreceived
  have hroot := hwhole.canonical _ List.mem_cons_self
  have hencodes := hsigned.encodes hprepares hroot haddress hoff
  rw [hprepares.toSign, hsigned.hash_eq hencodes hcells hwhole]

theorem plainDeploy_wholeTree : WholeTree plainDeploy :=
  ⟨by decide +kernel, by decide⟩

theorem signed_tree_deploy :
    ∃ p, (plainRequest 1).prepare testSdk zeroLocals BocContext.zero
        (received (serialize plainHeader 0x02 plainDeploy)) = .ok p ∧
      p.toSign = toSignPrefix (plainRequest 1).ctx ++ ((signedTree
        ((plainRequest 1).front .prefixedContract) deployRoot
        [deployGift 0x00 [] no_refs]).digest testSdk.sha256).hash.toList := by
  obtain ⟨reception, p, hcells, hp, -⟩ := @exists_run_of_cells (plainRequest 1) 0x02 plainDeploy
    (fun _ => True) (by decide) (by decide) (by decide) (by decide +kernel)
  exact ⟨p, hp, signed_tree (by decide) (by decide) reception hcells plainDeploy_wholeTree
    (fun _ => by decide +kernel) hp⟩

end EverscaleLedger.Properties
