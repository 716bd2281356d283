import EverscaleLedger.Properties.DecodedCells
import EverscaleLedger.Properties.PrefixedCell
import EverscaleLedger.Properties.Transmission

/-! Whether the cells that are shown are the cells that are signed. The decoders
take cells by their position, the hash follows reference bytes. -/
namespace EverscaleLedger.Properties

open Library Source

/-- A reference byte of cell `i` points to slot `j`. -/
def Refers (cells : List RawCell) (i j : Nat) : Prop :=
  ∃ (c : RawCell) (r : UInt8), cells[i]? = some c ∧ r ∈ c.refs ∧ r.toNat = j

/-- A root with the same references, whose bits are those of the received one behind
the prefix. -/
structure Rewritten (request : SigningRequest) (received c : RawCell) : Prop where
  d1 : c.d1 = received.d1
  refs : c.refs = received.refs
  d2 : c.d2 = d2OfBitLen (received.bits.length + 267)
  bits : ∃ rest, Bits.ofBytes c.data =
    addressPrefix request.wc request.prependAddress ++ received.bits ++ rest

/-- The cell that is hashed for a received one: that cell, except for the root of a wallet
that signs over its address. -/
def HashedFor (request : SigningRequest) (i : Nat) (received c : RawCell) : Prop :=
  if i = rootCellIndex ∧ request.family = some .prefixedContract then Rewritten request received c
  else c = received

/-- The slot of a received cell is the hash over the cell's descriptor bytes, some
data and its children's slots. -/
structure HashOf (sdk : Sdk) (request : SigningRequest) (cells : List RawCell) (bc : BocContext)
    (i : Nat) (c : RawCell) : Prop where
  received : ∃ d, cells[i]? = some d ∧ HashedFor request i d c
  holds : ∃ rest, Holds (bc.cells i) c rest
  ordinary : ¬ c.Pruned
  hash : bc.hashes i = sdk.sha256 (c.representation bc i)

/-- The data of cell `j` is part of what was hashed into slot `i`. -/
inductive HashedInto (sdk : Sdk) (request : SigningRequest) (cells : List RawCell)
    (bc : BocContext) : Nat → Nat → Prop where
  | own {i : Nat} {c : RawCell} (h : HashOf sdk request cells bc i c)
      (data : c.hashedData bc i = c.data) : HashedInto sdk request cells bc i i
  | child {i j : Nat} {c : RawCell} {r : UInt8} (h : HashOf sdk request cells bc i c)
      (mem : r ∈ c.refs) (rest : HashedInto sdk request cells bc r.toNat j) :
      HashedInto sdk request cells bc i j

/-- The cell is an ordinary one, and its own data is hashed for it. -/
def HashesOwnData (bc : BocContext) (cells : List RawCell) (i : Nat) : Prop :=
  ∃ c : RawCell, cells[i]? = some c ∧ ¬ c.Pruned ∧ c.hashedData bc i = c.data

theorem giftIndexOf_eq (family : WalletFamily) (root : RawCell) :
    giftIndexOf family root = rootCellIndex ∨ giftIndexOf family root = giftCellIndex := by
  unfold giftIndexOf
  split
  · exact Or.inl rfl
  · exact Or.inr rfl

/-- Every decoded cell is where the references lead, and is hashed into `to_sign`. -/
structure DisplayCovered (sdk : Sdk) (request : SigningRequest) (cells : List RawCell)
    (p : Prepared) : Prop where
  toSign : p.toSign = toSignPrefix request.ctx ++ (p.hashed.hashes rootCellIndex).toList
  root : HashedInto sdk request cells p.hashed rootCellIndex rootCellIndex
  gift : 0 < p.decoded.giftSlice.dataWindowStart →
    (p.decoded.giftIndex = rootCellIndex ∨ Refers cells rootCellIndex p.decoded.giftIndex) ∧
      HashedInto sdk request cells p.hashed rootCellIndex p.decoded.giftIndex
  body : ∀ slice, p.decoded.bodySlice = some slice → 0 < slice.dataWindowStart →
    Refers cells p.decoded.giftIndex bodyCellIndex ∧
      HashedInto sdk request cells p.hashed rootCellIndex bodyCellIndex

/-- The received cells refer to each other in the way the decoders take for granted. -/
structure CoveredWhen (bc : BocContext) (family : WalletFamily) (cells : List RawCell) : Prop where
  root : ∀ root : RawCell, cells[rootCellIndex]? = some root → ¬ root.Pruned
  gift : ∀ root, cells[rootCellIndex]? = some root → ReadsGift family root →
    giftIndexOf family root = rootCellIndex ∨
      Refers cells rootCellIndex giftCellIndex ∧ HashesOwnData bc cells giftCellIndex
  body : ∀ root gift body, cells[rootCellIndex]? = some root →
    cells[giftIndexOf family root]? = some gift → cells[bodyCellIndex]? = some body →
    ReadsBody family gift body →
    Refers cells (giftIndexOf family root) bodyCellIndex ∧
      Relation.ReflTransGen (Refers cells) rootCellIndex bodyCellIndex ∧
      HashesOwnData bc cells bodyCellIndex

theorem hashedFor_of_pos {request : SigningRequest} {i : Nat} (hi : 0 < i) (c : RawCell) :
    HashedFor request i c c := by
  rw [HashedFor, if_neg fun hroot => hi.ne' hroot.1]

section

variable {sdk : Sdk} {locals : Locals} {request : SigningRequest} {src : ByteStream}
  {bc toHash : BocContext} {reception : Reception src bc} {family : WalletFamily}
  {received root : RawCell} {p : Prepared}

/-- A root without room for the prefix would have left the buffer. -/
theorem Prepares.room
    (h : Prepares sdk locals request reception.parsed .prefixedContract received.slice toHash p)
    (hreceived : reception.cells[rootCellIndex]? = some received)
    (haddress : request.prependAddress.length = addressLength) :
    received.data.length ≤ 94 ∧
      (received.bits.length + 267 + 7) / 8 + received.refs.length ≤ 128 := by
  obtain ⟨rest, hholds⟩ := reception.parsed_cells.holds rootCellIndex received hreceived
  obtain ⟨cell, hcell, -⟩ := bind_eq_ok.mp h.context
  exact prependAddressToCell_room hholds (Vector.length_toList ..) haddress
    (decodePrefixedContract_data_ne h.decode) received.bitLen_eq
    (reception.forward.refs_le _ (List.mem_of_getElem? hreceived)) hcell

theorem Prepares.prefixedData
    (h : Prepares sdk locals request reception.parsed .prefixedContract received.slice toHash p)
    (hsigned : SignedRoot sdk reception .prefixedContract received root toHash p)
    (haddress : request.prependAddress.length = addressLength) :
    PrefixedData received root request.wc request.prependAddress := by
  obtain ⟨rest, hholds⟩ := reception.parsed_cells.holds rootCellIndex received hsigned.received_eq
  have hne : received.data ≠ [] := decodePrefixedContract_data_ne h.decode
  have hrefs : received.refs.length ≤ maxReferencesCount :=
    reception.forward.refs_le _ (List.mem_of_getElem? hsigned.received_eq)
  obtain ⟨hdata, hroom⟩ := h.room hsigned.received_eq haddress
  obtain ⟨cell, hcell, hcontext⟩ := bind_eq_ok.mp h.context
  rw [pure_eq_ok] at hcontext
  obtain ⟨cell', root', tail, hcell', hroot', -, -, -, hd2, hlength, hbits⟩ :=
    prependAddressToCell_root request.wc hholds locals.cellBuffer.length_toList haddress hne
      received.bitLen_eq hrefs hdata hroom
  obtain rfl := Except.ok.inj (hcell.symm.trans hcell')
  obtain ⟨tail', htail'⟩ := hsigned.holds_root
  have hcells : p.hashed.cells rootCellIndex = cell := by
    rw [hsigned.tables.same.cells, ← hcontext]
    simp [BocContext.setCell]
  rw [hcells] at htail'
  obtain rfl := hroot'.unique htail'
  have hle := received.length_bits_le
  exact ⟨hd2, hlength, by omega, hlength ▸ hbits⟩

/-- Whatever the wallet, the bits of the received root are in the root that is hashed. -/
theorem Prepares.hashedFor
    (h : Prepares sdk locals request reception.parsed family received.slice toHash p)
    (hsigned : SignedRoot sdk reception family received root toHash p)
    (hfamily : request.family = some family)
    (haddress : request.prependAddress.length = addressLength) :
    HashedFor request rootCellIndex received root := by
  unfold HashedFor
  split
  next hroot =>
    obtain rfl := Option.some.inj (hfamily.symm.trans hroot.2)
    have hdata := h.prefixedData hsigned haddress
    exact ⟨hsigned.d1_eq, hsigned.refs_eq, hdata.d2, hdata.bits_behind haddress⟩
  next hroot =>
    apply hsigned.unprefixed
    rintro rfl
    exact hroot ⟨rfl, hfamily⟩

end

namespace SignedRoot

variable {sdk : Sdk} {src : ByteStream} {bc toHash : BocContext} {reception : Reception src bc}
  {request : SigningRequest} {family : WalletFamily} {received root : RawCell} {p : Prepared}

theorem pruned_iff (h : SignedRoot sdk reception family received root toHash p) :
    root.Pruned ↔ received.Pruned := by
  unfold RawCell.Pruned
  rw [h.d1_eq]

theorem hashedData_eq (h : SignedRoot sdk reception family received root toHash p)
    (c : RawCell) (i : Nat) : c.hashedData p.hashed i = c.hashedData bc i := by
  unfold RawCell.hashedData
  rw [h.tables.same.publicKeyCellData, h.tables.same.publicKeyCellIndex, h.publicKeyCellData,
    h.publicKeyCellIndex]

theorem hashOf_root (h : SignedRoot sdk reception family received root toHash p)
    (hfor : HashedFor request rootCellIndex received root) (hp : ¬ root.Pruned) :
    HashOf sdk request reception.cells p.hashed rootCellIndex root := by
  have hhash := (h.tables.root_digested hp).1
  rw [RawCell.hashIn, if_neg hp] at hhash
  exact ⟨⟨received, h.received_eq, hfor⟩, h.holds_root, hp, hhash⟩

theorem hashOf_of_pos (h : SignedRoot sdk reception family received root toHash p) {i : Nat}
    {c : RawCell} (hi : 0 < i) (hc : reception.cells[i]? = some c) (hp : ¬ c.Pruned) :
    HashOf sdk request reception.cells p.hashed i c := by
  have hhash := (h.tables.digested i c hi hc).1
  rw [RawCell.hashIn, if_neg hp] at hhash
  exact ⟨⟨c, hc, hashedFor_of_pos hi c⟩, h.holds i c hi hc, hp, hhash⟩

/-- A received cell with references, and the root when it is ordinary, are hashed. -/
theorem hashOf_of_ref (h : SignedRoot sdk reception family received root toHash p)
    (hfor : HashedFor request rootCellIndex received root) {i j : Nat}
    (hrefers : Refers reception.cells i j) :
    ∃ (c : RawCell) (r : UInt8), HashOf sdk request reception.cells p.hashed i c ∧ r ∈ c.refs ∧
      r.toNat = j := by
  obtain ⟨c, r, hc, hr, hj⟩ := hrefers
  by_cases hi : i = rootCellIndex
  · subst hi
    obtain rfl := Option.some.inj (h.received_eq.symm.trans hc)
    rw [← h.refs_eq] at hr
    exact ⟨root, r, h.hashOf_root hfor (RawCell.not_pruned_of_mem_refs hr), hr, hj⟩
  · have hp := RawCell.not_pruned_of_mem_refs hr
    exact ⟨c, r, h.hashOf_of_pos (Nat.pos_of_ne_zero hi) hc hp, hr, hj⟩

theorem refers_of_hashOf (h : SignedRoot sdk reception family received root toHash p) {i : Nat}
    {c : RawCell} {r : UInt8} (hash : HashOf sdk request reception.cells p.hashed i c)
    (hr : r ∈ c.refs) : Refers reception.cells i r.toNat := by
  obtain ⟨rest, hrest⟩ := hash.holds
  obtain ⟨d, hd, -⟩ := hash.received
  by_cases hi : i = 0
  · subst hi
    obtain ⟨tail, htail⟩ := h.holds_root
    obtain rfl := hrest.unique htail
    exact ⟨received, r, h.received_eq, h.refs_eq ▸ hr, rfl⟩
  · obtain ⟨tail, htail⟩ := h.holds i d (by omega) hd
    obtain rfl := hrest.unique htail
    exact ⟨c, r, hd, hr, rfl⟩

/-- Hashing succeeded, so no reference left the tables. -/
theorem refs_lt (h : SignedRoot sdk reception family received root toHash p) {i : Nat}
    {c : RawCell} (hc : reception.cells[i]? = some c) {r : UInt8} (hr : r ∈ c.refs) :
    r.toNat < maxContractCellsCount := by
  have hp := RawCell.not_pruned_of_mem_refs hr
  by_cases hi : i = 0
  · subst hi
    obtain rfl := Option.some.inj (h.received_eq.symm.trans hc)
    rw [← h.refs_eq] at hr
    have hroot := RawCell.not_pruned_of_mem_refs hr
    exact ((h.tables.root_hashable hroot).resolve_left hroot).1 r hr
  · exact ((h.tables.hashable i c (Nat.pos_of_ne_zero hi) hc).resolve_left hp).1 r hr

theorem hashedInto_root_iff (h : SignedRoot sdk reception family received root toHash p)
    (hfor : HashedFor request rootCellIndex received root) :
    HashedInto sdk request reception.cells p.hashed 0 0 ↔ ¬ received.Pruned := by
  have hroot : ∀ c, HashOf sdk request reception.cells p.hashed 0 c → ¬ received.Pruned := by
    intro c hash hp
    obtain ⟨rest, hrest⟩ := hash.holds
    obtain ⟨tail, htail⟩ := h.holds_root
    obtain rfl := hrest.unique htail
    exact hash.ordinary (h.pruned_iff.mpr hp)
  constructor
  · intro hinto
    cases hinto with
    | own hash _ => exact hroot _ hash
    | child hash _ _ => exact hroot _ hash
  · intro hp
    rw [← h.pruned_iff] at hp
    exact .own (h.hashOf_root hfor hp) (root.hashedData_zero _)

/-- Another cell is hashed into a slot exactly when references lead to it and its
own data is hashed for it. -/
theorem hashedInto_iff (h : SignedRoot sdk reception family received root toHash p)
    (hfor : HashedFor request rootCellIndex received root) {i j : Nat} (hj : 0 < j) :
    HashedInto sdk request reception.cells p.hashed i j ↔
      Relation.ReflTransGen (Refers reception.cells) i j ∧
        HashesOwnData bc reception.cells j := by
  constructor
  · intro hinto
    induction hinto with
    | @own i c hash hdata =>
      refine ⟨.refl, ?_⟩
      obtain ⟨d, hd, -⟩ := hash.received
      obtain ⟨rest, hrest⟩ := hash.holds
      obtain ⟨tail, htail⟩ := h.holds i d hj hd
      obtain rfl := hrest.unique htail
      exact ⟨c, hd, hash.ordinary, h.hashedData_eq c i ▸ hdata⟩
    | child hash hr _ ih =>
      obtain ⟨hpath, hown⟩ := ih hj
      exact ⟨hpath.head (h.refers_of_hashOf hash hr), hown⟩
  · rintro ⟨hpath, c, hc, hp, hdata⟩
    induction hpath using Relation.ReflTransGen.head_induction_on with
    | refl => exact .own (h.hashOf_of_pos hj hc hp) (h.hashedData_eq c j ▸ hdata)
    | head hstep _ ih =>
      obtain ⟨d, r, hash, hr, rfl⟩ := h.hashOf_of_ref hfor hstep
      exact .child hash hr ih

end SignedRoot

/-- What is displayed is covered by what is signed exactly when the cells that the
decoders take by position are those that the references lead to. -/
theorem displayCovered_iff {sdk : Sdk} {locals : Locals} {request : SigningRequest}
    {bc : BocContext} {src : ByteStream} {p : Prepared} {family : WalletFamily}
    (reception : Reception src bc) (hfamily : request.family = some family)
    (haddress : request.prependAddress.length = addressLength)
    (h : request.prepare sdk locals bc src = .ok p) :
    DisplayCovered sdk request reception.cells p ↔ CoveredWhen bc family reception.cells := by
  obtain ⟨received, root, toHash, hreceived, hprepares, hsigned⟩ := reception.prepares hfamily h
  have hfor := hprepares.hashedFor hsigned hfamily haddress
  obtain ⟨gift, hdecoded, -⟩ := hprepares.decodedFrom hreceived
  have hbodyIndex : 0 < bodyCellIndex := by decide
  constructor
  · intro hcovered
    refine ⟨fun c hc => ?_, fun c hc hreads => ?_, fun c g b hc hg hb hreads => ?_⟩
    · obtain rfl := Option.some.inj (hreceived.symm.trans hc)
      exact (hsigned.hashedInto_root_iff hfor).mp hcovered.root
    · obtain rfl := Option.some.inj (hreceived.symm.trans hc)
      obtain ⟨hrefers, hinto⟩ := hcovered.gift (hdecoded.gift_read.mpr hreads)
      rw [hdecoded.giftIndex_eq] at hrefers hinto
      by_cases hindex : giftIndexOf family received = rootCellIndex
      · exact Or.inl hindex
      · have hone : giftIndexOf family received = giftCellIndex := by
          unfold giftIndexOf at hindex ⊢
          split at hindex
          · exact absurd rfl hindex
          · next hnot => rw [if_neg hnot]
        rw [hone] at hrefers hinto
        have hown := ((hsigned.hashedInto_iff hfor (by decide)).mp hinto).2
        exact Or.inr ⟨hrefers.resolve_left (by decide), hown⟩
    · obtain rfl := Option.some.inj (hreceived.symm.trans hc)
      rw [← hdecoded.giftIndex_eq] at hg ⊢
      obtain rfl := Option.some.inj (hdecoded.gift_eq.symm.trans hg)
      obtain ⟨slice, hslice, hpos⟩ := hdecoded.body_read.mpr ⟨b, hb, hreads⟩
      obtain ⟨hrefers, hinto⟩ := hcovered.body slice hslice hpos
      exact ⟨hrefers, (hsigned.hashedInto_iff hfor hbodyIndex).mp hinto⟩
  · intro hwhen
    have hroot := (hsigned.hashedInto_root_iff hfor).mpr (hwhen.root received hreceived)
    refine ⟨hprepares.toSign, hroot, fun hread => ?_, fun slice hslice hpos => ?_⟩
    · rw [hdecoded.giftIndex_eq]
      obtain hindex | ⟨hrefers, hown⟩ :=
        hwhen.gift received hreceived (hdecoded.gift_read.mp hread)
      · rw [hindex]
        exact ⟨Or.inl rfl, hroot⟩
      · obtain hindex | hindex := giftIndexOf_eq family received
        · rw [hindex]
          exact ⟨Or.inl rfl, hroot⟩
        · rw [hindex]
          exact ⟨Or.inr hrefers,
            (hsigned.hashedInto_iff hfor (by decide)).mpr ⟨.single hrefers, hown⟩⟩
    · obtain ⟨body, hbody, hreads⟩ := hdecoded.body_read.mp ⟨slice, hslice, hpos⟩
      have hgift := hdecoded.gift_eq
      rw [hdecoded.giftIndex_eq] at hgift ⊢
      obtain ⟨hrefers, hboth⟩ := hwhen.body received gift body hreceived hgift hbody hreads
      exact ⟨hrefers, (hsigned.hashedInto_iff hfor hbodyIndex).mpr hboth⟩

/-- The root of a wallet transfer, with the references given. -/
def transferRoot (d1 : UInt8) (refs : List UInt8) (h : refs.length = refsCountOf d1) : RawCell where
  d1 := d1
  d2 := 0x1A
  data := [0x4B, 0xA9, 0x2D, 0x8A, 0x00, 0x00, 0x00, 0x00, 0x00, 0x00, 0x00, 0x00, 0x03]
  refs := refs
  data_length := by decide
  refs_length := h

/-- An internal message with a recipient, an amount and no body of its own. -/
def transferGift (d1 : UInt8) (refs : List UInt8) (h : refs.length = refsCountOf d1) : RawCell where
  d1 := d1
  d2 := 0x62
  data := [
    0x62, 0x00, 0x2A, 0xAA, 0xAA, 0xAA, 0xAA, 0xAA, 0xAA, 0xAA, 0xAA, 0xAA, 0xAA, 0xAA, 0xAA, 0xAA,
    0xAA, 0xAA, 0xAA, 0xAA, 0xAA, 0xAA, 0xAA, 0xAA, 0xAA, 0xAA, 0xAA, 0xAA, 0xAA, 0xAA, 0xAA, 0xAA,
    0xAA, 0xAA, 0x88, 0x28, 0x00, 0x00, 0x00, 0x00, 0x00, 0x00, 0x00, 0x00, 0x00, 0x00, 0x00, 0x00,
    0x00]
  refs := refs
  data_length := by decide
  refs_length := h

/-- The root refers to the message that is shown, as a wallet expects it. -/
def attachedTransfer : List RawCell :=
  [transferRoot 0x01 [0x01] one_ref, transferGift 0x00 [] no_refs]

theorem attachedTransfer_prepared :
    Succeeds ((plainRequest 0).prepare testSdk zeroLocals BocContext.zero
      (received (serialize plainHeader 0x02 attachedTransfer))) fun _ => True := by
  decide +kernel

/-- The message that is shown is the second cell, but nothing refers to it. -/
def detachedTransfer : List RawCell :=
  [transferRoot 0x00 [] no_refs, transferGift 0x00 [] no_refs]

theorem displayCovered_attachedTransfer :
    ∃ (reception : Reception (received (serialize plainHeader 0x02 attachedTransfer)) BocContext.zero)
      (p : Prepared), reception.cells = attachedTransfer ∧
        (plainRequest 0).prepare testSdk zeroLocals BocContext.zero
          (received (serialize plainHeader 0x02 attachedTransfer)) = .ok p ∧
        DisplayCovered testSdk (plainRequest 0) reception.cells p := by
  obtain ⟨reception, p, hcells, hp, -⟩ := exists_run_of_cells (by decide) (by decide) (by decide)
    attachedTransfer_prepared
  refine ⟨reception, p, hcells, hp,
    (displayCovered_iff reception (show _ = some .walletV3 by decide) rfl hp).mpr ?_⟩
  rw [hcells]
  refine ⟨fun root hroot => ?_, fun root hroot _ => Or.inr ⟨⟨_, 0x01, rfl, ?_, rfl⟩, ?_⟩,
    fun _ _ body _ _ hbody => ?_⟩
  · obtain rfl := Option.some.inj hroot
    decide
  · exact List.mem_singleton.mpr rfl
  · exact ⟨_, rfl, by decide, rfl⟩
  · cases hbody

theorem display_not_covered :
    ¬ ∀ (sdk : Sdk) (locals : Locals) (request : SigningRequest) (src : ByteStream) (p : Prepared)
      (reception : Reception src BocContext.zero),
      request.prependAddress.length = addressLength →
      request.prepare sdk locals BocContext.zero src = .ok p →
      DisplayCovered sdk request reception.cells p := by
  intro hall
  obtain ⟨reception, p, hcells, hp, hread, hindex⟩ := @exists_run_of_cells (plainRequest 0) 0x02
    detachedTransfer
    (fun p => 0 < p.decoded.giftSlice.dataWindowStart ∧ p.decoded.giftIndex = giftCellIndex)
    (by decide) (by decide) (by decide) (by decide +kernel)
  have hcovered := hall testSdk zeroLocals (plainRequest 0) _ p reception rfl hp
  obtain ⟨hroot | ⟨root, r, hroot, hr, -⟩, -⟩ := hcovered.gift hread
  · rw [hindex] at hroot
    exact absurd hroot (by decide)
  · rw [hcells] at hroot
    obtain rfl := Option.some.inj hroot
    cases hr

/-- No pruned branch is decoded, and the signed digest was computed over the bytes
of the root. -/
structure OrdinaryAndDigested (sdk : Sdk) (request : SigningRequest) (cells : List RawCell)
    (p : Prepared) : Prop where
  root : ∃ c : RawCell, cells[rootCellIndex]? = some c ∧ ¬ c.Pruned
  gift : 0 < p.decoded.giftSlice.dataWindowStart →
    ∃ c : RawCell, cells[p.decoded.giftIndex]? = some c ∧ ¬ c.Pruned
  body : ∀ slice, p.decoded.bodySlice = some slice → 0 < slice.dataWindowStart →
    ∃ c : RawCell, cells[bodyCellIndex]? = some c ∧ ¬ c.Pruned
  digest : ∃ (c : RawCell) (rest : List UInt8), Holds (p.hashed.cells rootCellIndex) c rest ∧
    p.toSign = toSignPrefix request.ctx ++ (sdk.sha256
      ([UInt8.ofNat (c.d1.toNat &&& 0b00011111), c.d2] ++ c.data ++ c.depthBytes p.hashed ++
        c.hashBytes p.hashed)).toList

/-- The received cells that are decoded are ordinary. -/
structure OrdinaryWhen (family : WalletFamily) (cells : List RawCell) : Prop where
  root : ∀ root : RawCell, cells[rootCellIndex]? = some root → ¬ root.Pruned
  gift : ∀ root gift, cells[rootCellIndex]? = some root → ReadsGift family root →
    cells[giftIndexOf family root]? = some gift → ¬ gift.Pruned
  body : ∀ root gift body, cells[rootCellIndex]? = some root →
    cells[giftIndexOf family root]? = some gift → cells[bodyCellIndex]? = some body →
    ReadsBody family gift body → ¬ body.Pruned

/-- The device signs a digest that it computed, over cells that are ordinary where
they were decoded, exactly when the root and the decoded cells are not pruned. -/
theorem ordinaryAndDigested_iff {sdk : Sdk} {locals : Locals} {request : SigningRequest}
    {bc : BocContext} {src : ByteStream} {p : Prepared} {family : WalletFamily}
    (reception : Reception src bc) (hfamily : request.family = some family)
    (h : request.prepare sdk locals bc src = .ok p) :
    OrdinaryAndDigested sdk request reception.cells p ↔ OrdinaryWhen family reception.cells := by
  obtain ⟨received, root, toHash, hreceived, hprepares, hsigned⟩ := reception.prepares hfamily h
  obtain ⟨gift, hdecoded, -⟩ := hprepares.decodedFrom hreceived
  constructor
  · intro hproperty
    refine ⟨fun c hc => ?_, fun c g hc hreads hg => ?_, fun c g b hc hg hb hreads => ?_⟩
    · obtain ⟨d, hd, hp⟩ := hproperty.root
      exact Option.some.inj (hd.symm.trans hc) ▸ hp
    · obtain rfl := Option.some.inj (hreceived.symm.trans hc)
      obtain ⟨d, hd, hp⟩ := hproperty.gift (hdecoded.gift_read.mpr hreads)
      rw [hdecoded.giftIndex_eq] at hd
      exact Option.some.inj (hd.symm.trans hg) ▸ hp
    · obtain rfl := Option.some.inj (hreceived.symm.trans hc)
      rw [← hdecoded.giftIndex_eq] at hg
      obtain rfl := Option.some.inj (hdecoded.gift_eq.symm.trans hg)
      obtain ⟨slice, hslice, hpos⟩ := hdecoded.body_read.mpr ⟨b, hb, hreads⟩
      obtain ⟨d, hd, hp⟩ := hproperty.body slice hslice hpos
      exact Option.some.inj (hd.symm.trans hb) ▸ hp
  · intro hwhen
    have hp := hwhen.root received hreceived
    have hgift := hdecoded.gift_eq
    refine ⟨⟨received, hreceived, hp⟩, fun hread => ?_, fun slice hslice hpos => ?_, ?_⟩
    · rw [hdecoded.giftIndex_eq] at hgift ⊢
      exact ⟨gift, hgift, hwhen.gift received gift hreceived (hdecoded.gift_read.mp hread) hgift⟩
    · obtain ⟨body, hbody, hreads⟩ := hdecoded.body_read.mp ⟨slice, hslice, hpos⟩
      rw [hdecoded.giftIndex_eq] at hgift
      exact ⟨body, hbody, hwhen.body received gift body hreceived hgift hbody hreads⟩
    · obtain ⟨rest, hrest⟩ := hsigned.holds_root
      refine ⟨root, rest, hrest, ?_⟩
      rw [← hsigned.pruned_iff] at hp
      have hhash := (hsigned.tables.root_digested hp).1
      rw [RawCell.hashIn, if_neg hp, RawCell.representation, root.hashedData_zero] at hhash
      rw [hprepares.toSign, rootCellIndex, hhash]

theorem ordinaryAndDigested_attachedTransfer :
    ∃ (reception : Reception (received (serialize plainHeader 0x02 attachedTransfer)) BocContext.zero)
      (p : Prepared), reception.cells = attachedTransfer ∧
        (plainRequest 0).prepare testSdk zeroLocals BocContext.zero
          (received (serialize plainHeader 0x02 attachedTransfer)) = .ok p ∧
        OrdinaryAndDigested testSdk (plainRequest 0) reception.cells p := by
  obtain ⟨reception, p, hcells, hp, -⟩ := exists_run_of_cells (by decide) (by decide) (by decide)
    attachedTransfer_prepared
  refine ⟨reception, p, hcells, hp,
    (ordinaryAndDigested_iff reception (show _ = some .walletV3 by decide) hp).mpr ?_⟩
  rw [hcells]
  refine ⟨fun root hroot => ?_, fun root gift _ _ hgift => ?_, fun _ _ body _ _ hbody => ?_⟩
  · obtain rfl := Option.some.inj hroot
    decide
  · obtain rfl := Option.some.inj hgift
    decide
  · cases hbody

/-- A confirmation whose only cell is a pruned branch: its data is the header and
the transaction id, and at the same time a hash. -/
def prunedConfirmation : RawCell where
  d1 := 0x28
  d2 := 0x48
  data := [
    0x00, 0x00, 0x00, 0x00, 0x00, 0x00, 0x00, 0x00, 0x00, 0x00, 0x00, 0x00, 0x0D, 0x53, 0xA0, 0x76,
    0x80, 0x81, 0x01, 0x82, 0x02, 0x83, 0x03, 0x84, 0x00, 0x00, 0x00, 0x00, 0x00, 0x00, 0x00, 0x00,
    0x00, 0x00, 0x00, 0x00]
  refs := []
  data_length := by decide
  refs_length := no_pruned_refs

theorem digest_of_pruned_root :
    (∃ p, (plainRequest 2).prepare testSdk zeroLocals BocContext.zero
        (received (serialize plainHeader 0x01 [prunedConfirmation])) = .ok p ∧
      p.toSign = (prunedConfirmation.data.drop 2).take hashSize) ∧
    ¬ ∀ (sdk : Sdk) (locals : Locals) (request : SigningRequest) (src : ByteStream) (p : Prepared)
      (reception : Reception src BocContext.zero),
      request.prepare sdk locals BocContext.zero src = .ok p →
      OrdinaryAndDigested sdk request reception.cells p := by
  obtain ⟨reception, p, hcells, hp, htoSign⟩ := @exists_run_of_cells (plainRequest 2) 0x01
    [prunedConfirmation] (fun p => p.toSign = (prunedConfirmation.data.drop 2).take hashSize)
    (by decide) (by decide) (by decide) (by decide +kernel)
  refine ⟨⟨p, hp, htoSign⟩, fun hall => ?_⟩
  obtain ⟨root, hroot, hordinary⟩ :=
    (hall testSdk zeroLocals (plainRequest 2) _ p reception hp).root
  rw [hcells] at hroot
  obtain rfl := Option.some.inj hroot
  exact hordinary (by decide)

end EverscaleLedger.Properties
