import EverscaleLedger.Properties.Coverage
import EverscaleLedger.Properties.PrefixedCell

/-! How far the decoders go in each cell, against the bits that the cell has. A slice
covers all bytes of its cell, and so the completion tag and what comes behind it. -/
namespace EverscaleLedger.Properties

open Library Source Slice

/-- Every bit in front of the cursor is one that `Cell_bit_len` counts. -/
def TakesOwnBits (c : RawCell) (slice : SliceData) : Prop :=
  ∃ bitLen, c.bitLen = .ok bitLen ∧ ∀ position < slice.dataWindowStart, position < bitLen

/-- The root behind the part of it that each wallet family decodes first. -/
def readRoot (family : WalletFamily) (root : RawCell) : Outcome SliceData :=
  match family with
  | .walletV3 => do
      let (_, slice) ← deserializeWalletV3 root.slice
      pure slice
  | .contract | .prefixedContract => do
      let (_, slice) ← deserializeContractHeader root.slice
      pure slice

/-- No decoder has gone past the end of the bits of a cell. -/
structure StopsAtCellEnds (family : WalletFamily) (cells : List RawCell) (d : Decoded) : Prop where
  root : ∀ root slice, cells[rootCellIndex]? = some root → readRoot family root = .ok slice →
    TakesOwnBits root slice
  gift : ∀ gift, cells[d.giftIndex]? = some gift → TakesOwnBits gift d.giftSlice
  body : ∀ body slice, cells[bodyCellIndex]? = some body → d.bodySlice = some slice →
    TakesOwnBits body slice

/-- Each cell has the bits of the fields that are decoded from it. -/
structure LongEnough (family : WalletFamily) (cells : List RawCell) : Prop where
  root : ∀ root : RawCell, cells[rootCellIndex]? = some root →
    rootFieldBits family root ≤ root.bits.length
  gift : ∀ root gift : RawCell, cells[rootCellIndex]? = some root →
    cells[giftIndexOf family root]? = some gift → giftFieldBits family root gift ≤ gift.bits.length
  body : ∀ root gift body : RawCell, cells[rootCellIndex]? = some root →
    cells[giftIndexOf family root]? = some gift → cells[bodyCellIndex]? = some body →
    bodyFieldBits family gift body ≤ body.bits.length

theorem takesOwnBits_iff (c : RawCell) (slice : SliceData) :
    TakesOwnBits c slice ↔ slice.dataWindowStart ≤ c.bits.length := by
  unfold TakesOwnBits
  rw [c.bitLen_eq]
  simp only [Except.ok.injEq, exists_eq_left']
  constructor
  · intro hall
    by_contra hlong
    exact absurd (hall c.bits.length (Nat.lt_of_not_le hlong)) (Nat.lt_irrefl _)
  · intro hle position hposition
    exact Nat.lt_of_lt_of_le hposition hle

theorem readRoot_ok {family : WalletFamily} {root : RawCell} {slice : SliceData}
    (h : readRoot family root = .ok slice) :
    slice.dataWindowStart = rootFieldBits family root := by
  cases family with
  | walletV3 =>
    simp only [readRoot, bind_eq_ok, pure_eq_ok] at h
    obtain ⟨⟨flags, next⟩, hread, rfl⟩ := h
    rw [deserializeWalletV3_ok hread]
    rfl
  | contract =>
    simp only [readRoot, bind_eq_ok, pure_eq_ok] at h
    obtain ⟨⟨functionId, next⟩, hread, rfl⟩ := h
    rw [deserializeContractHeader_ok hread]
    exact Nat.zero_add _
  | prefixedContract =>
    simp only [readRoot, bind_eq_ok, pure_eq_ok] at h
    obtain ⟨⟨functionId, next⟩, hread, rfl⟩ := h
    rw [deserializeContractHeader_ok hread]
    exact Nat.zero_add _

/-- A message that was decoded has a root that was. -/
theorem exists_readRoot {sdk : Sdk} {locals : Locals} {request : SigningRequest}
    {parsed : BocContext} {root : RawCell} {family : WalletFamily} {d : Decoded}
    (h : decodeFor sdk locals request parsed root.slice family = .ok d) :
    ∃ slice, readRoot family root = .ok slice := by
  cases family with
  | walletV3 =>
    simp only [decodeFor, decodeWalletV3, bind_eq_ok] at h
    obtain ⟨⟨flags, slice⟩, hread, -⟩ := h
    exact ⟨slice, by rw [readRoot, hread]; rfl⟩
  | contract =>
    simp only [decodeFor, decodeContract, bind_eq_ok] at h
    obtain ⟨⟨functionId, slice⟩, hread, -⟩ := h
    exact ⟨slice, by rw [readRoot, hread]; rfl⟩
  | prefixedContract =>
    simp only [decodeFor, decodePrefixedContract, bind_eq_ok] at h
    obtain ⟨⟨functionId, slice⟩, hread, -⟩ := h
    exact ⟨slice, by rw [readRoot, hread]; rfl⟩

/-- A successful run has taken bits of the cells only, and no tag or padding, exactly when
each cell has the bits of its fields. -/
theorem decoders_stop_iff {sdk : Sdk} {locals : Locals} {request : SigningRequest}
    {bc : BocContext} {src : ByteStream} {p : Prepared} {family : WalletFamily}
    (reception : Reception src bc) (hfamily : request.family = some family)
    (h : request.prepare sdk locals bc src = .ok p) :
    StopsAtCellEnds family reception.cells p.decoded ↔ LongEnough family reception.cells := by
  obtain ⟨received, root, toHash, hreceived, hprepares, hsigned⟩ := reception.prepares hfamily h
  obtain ⟨gift, hdecoded, hfields, -⟩ := hprepares.decodedFrom hreceived
  obtain ⟨slice, hslice⟩ := exists_readRoot hprepares.decode
  have hgift := hdecoded.gift_eq
  constructor
  · intro hstops
    refine ⟨fun c hc => ?_, fun c g hc hg => ?_, fun c g body hc hg hbody => ?_⟩
    · obtain rfl := Option.some.inj (hreceived.symm.trans hc)
      have hroot := hstops.root received slice hreceived hslice
      rwa [takesOwnBits_iff, readRoot_ok hslice] at hroot
    · obtain rfl := Option.some.inj (hreceived.symm.trans hc)
      rw [← hdecoded.giftIndex_eq] at hg
      obtain rfl := Option.some.inj (hgift.symm.trans hg)
      have hown := hstops.gift gift hgift
      rwa [takesOwnBits_iff, hfields.gift_end] at hown
    · obtain rfl := Option.some.inj (hreceived.symm.trans hc)
      rw [← hdecoded.giftIndex_eq] at hg
      obtain rfl := Option.some.inj (hgift.symm.trans hg)
      rw [← hfields.body_end body hbody, bodyEnd]
      cases hsome : p.decoded.bodySlice with
      | none => exact Nat.zero_le _
      | some bodySlice =>
        exact (takesOwnBits_iff body bodySlice).mp (hstops.body body bodySlice hbody hsome)
  · intro hlong
    refine ⟨fun c rootSlice hc hread => ?_, fun g hg => ?_, fun body bodySlice hbody hsome => ?_⟩
    · rw [takesOwnBits_iff, readRoot_ok hread]
      exact hlong.root c hc
    · obtain rfl := Option.some.inj (hgift.symm.trans hg)
      rw [hdecoded.giftIndex_eq] at hgift
      rw [takesOwnBits_iff, hfields.gift_end]
      exact hlong.gift received gift hreceived hgift
    · have hend := hfields.body_end body hbody
      rw [bodyEnd, hsome] at hend
      simp only at hend
      rw [hdecoded.giftIndex_eq] at hgift
      rw [takesOwnBits_iff, hend]
      exact hlong.body received gift body hreceived hgift hbody

theorem decoders_stop_attachedTransfer :
    ∃ (reception : Reception (received (serialize plainHeader 0x02 attachedTransfer)) BocContext.zero)
      (p : Prepared), reception.cells = attachedTransfer ∧
        (plainRequest 0).prepare testSdk zeroLocals BocContext.zero
          (received (serialize plainHeader 0x02 attachedTransfer)) = .ok p ∧
        StopsAtCellEnds .walletV3 reception.cells p.decoded := by
  obtain ⟨reception, p, hcells, hp, -⟩ := exists_run_of_cells (by decide) (by decide) (by decide)
    attachedTransfer_prepared
  refine ⟨reception, p, hcells, hp,
    (decoders_stop_iff reception (show _ = some .walletV3 by decide) hp).mpr ?_⟩
  rw [hcells]
  refine ⟨fun root hroot => ?_, fun root gift hroot hgift => ?_, fun _ _ body _ _ hbody => ?_⟩
  · obtain rfl := Option.some.inj hroot
    decide
  · obtain rfl := Option.some.inj hroot
    obtain rfl := Option.some.inj hgift
    decide +kernel
  · cases hbody

/-- The root of a wallet transfer with a bit less: the last bit of its flags is the tag. -/
def shortRoot : RawCell := { transferRoot 0x01 [0x01] one_ref with
  d2 := 0x19
  data_length := by decide }

def shortTransfer : List RawCell := [shortRoot, transferGift 0x00 [] no_refs]

/-- The completion tag of the root is decoded as the last bit of the flags. -/
theorem decoders_go_past_end :
    ¬ ∀ (sdk : Sdk) (locals : Locals) (request : SigningRequest) (src : ByteStream) (p : Prepared)
      (family : WalletFamily) (reception : Reception src BocContext.zero),
      request.family = some family → request.prepare sdk locals BocContext.zero src = .ok p →
      StopsAtCellEnds family reception.cells p.decoded := by
  intro hall
  obtain ⟨reception, p, hcells, hp, -⟩ := @exists_run_of_cells (plainRequest 0) 0x02 shortTransfer
    (fun _ => True) (by decide) (by decide) (by decide) (by decide +kernel)
  have hstops := hall testSdk zeroLocals (plainRequest 0) _ p .walletV3 reception (by decide) hp
  have hread : Succeeds (readRoot .walletV3 shortRoot) fun _ => True := by decide +kernel
  obtain ⟨slice, hslice, -⟩ := hread.exists
  have hroot := hstops.root shortRoot slice (by rw [hcells]; rfl) hslice
  rw [takesOwnBits_iff, readRoot_ok hslice] at hroot
  exact absurd hroot (by decide)

end EverscaleLedger.Properties
