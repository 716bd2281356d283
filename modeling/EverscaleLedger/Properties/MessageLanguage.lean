import EverscaleLedger.Properties.BocFormat
import EverscaleLedger.Properties.DeviceBuffers
import EverscaleLedger.Properties.WalletMessages

/-! The strings that `prepare_to_sign` takes, as a language: those that one message is
sent as, which is the message on the screen. -/
namespace EverscaleLedger.Properties

open Library Source

/-! Hashing, of pruned cells as well. -/

section

variable {sdk : Sdk} {cell : Cell} {c : RawCell} {rest : List UInt8} {i : Nat} {bc : BocContext}

/-- What lets a cell be hashed: its references are to slots of the tables, behind it. -/
structure HashesAt (bc : BocContext) (i : Nat) (c : RawCell) (rest : List UInt8) : Prop where
  fits : HashFits bc i c rest
  refs_le : c.refs.length ≤ maxReferencesCount
  refs : ∀ r ∈ c.refs, i < r.toNat ∧ r.toNat < maxContractCellsCount

theorem calcCellHash_exists (h : Holds cell c rest) (hhashes : HashesAt bc i c rest) :
    ∃ result, calcCellHash sdk cell i bc = .ok result := by
  by_cases hp : c.Pruned
  · -- hash and depth are in the data, or in what is behind a root that was cut short
    have hsize := hhashes.fits.pruned hp
    rw [prunedBranchDataSize] at hsize
    have hhash := loadMany_eq_ok.mpr ⟨(show hashSize ≤ ((c.data ++ (c.refs ++ rest)).drop 2).length by
      rw [List.length_drop, hashSize]; omega), rfl⟩
    have hdepth := load_eq_ok.mpr (List.getElem?_eq_getElem
      (show 2 + hashSize + 1 < (c.data ++ (c.refs ++ rest)).length by rw [hashSize]; omega))
    unfold calcCellHash
    rw [BocContext.slot_eq_ok.mpr ⟨hhashes.fits.index, rfl⟩, ok_bind, h.getD1, ok_bind,
      if_pos (show c.d1 = prunedBranchD1 from hp), h.getData, ok_bind, hhash, ok_bind, hdepth]
    exact ⟨_, rfl⟩
  · refine ⟨_, (calcCellHash_ordinary h hhashes.fits.index hp hhashes.refs_le
      fun r hr => (hhashes.refs r hr).1).mpr ⟨Or.inr ⟨?_, hhashes.fits.publicKey⟩, rfl⟩⟩
    exact fun r hr => (hhashes.refs r hr).2

theorem calcCellHashes_exists {count : Nat}
    (h : ∀ i < count, ∃ c rest, Holds (bc.cells i) c rest ∧ HashesAt bc i c rest) :
    ∃ result, calcCellHashes sdk count bc = .ok result := by
  induction count generalizing bc with
  | zero => exact ⟨bc, rfl⟩
  | succ count ih =>
    obtain ⟨c, rest, hc, hhashes⟩ := h count (Nat.lt_succ_self count)
    obtain ⟨next, hnext⟩ := @calcCellHash_exists sdk _ _ _ _ _ hc hhashes
    have hsame : SameCells bc next := (calcCellHash_inBounds hc hhashes.fits).2 next hnext
    rw [calcCellHashes, hnext, ok_bind]
    apply ih
    intro i hi
    obtain ⟨c, rest, hc, hhashes⟩ := h i (Nat.lt_succ_of_lt hi)
    rw [hsame.cells]
    exact ⟨c, rest, hc, hhashes.fits.congr hsame, hhashes.refs_le, hhashes.refs⟩

end

/-! Sending. -/

/-- A string is a bag of cells that encodes a message for the wallet of a request. Its
references are to slots of the tables, and the root has room for the address. -/
structure SentAs (request : SigningRequest) (src : ByteStream) (boc : Boc)
    (message : WalletMessage) : Prop where
  bytes : boc.bytes = src.getCursor
  encoded : ∃ family, request.family = some family ∧ message.EncodedBy family boc.cells
  slots : ∀ c ∈ boc.cells, ∀ r ∈ c.refs, r.toNat < maxContractCellsCount
  room : request.family = some .prefixedContract → ∀ root, boc.cells[rootCellIndex]? = some root →
    LeavesRoom root request.prependAddress

theorem SentAs.unique {request : SigningRequest} {src : ByteStream} {first second : Boc}
    {message message' : WalletMessage} (h : SentAs request src first message)
    (h' : SentAs request src second message') : (first, message) = (second, message') := by
  obtain rfl := Boc.bytes_injective (h.bytes.trans h'.bytes.symm)
  obtain ⟨family, hfamily, hencoded⟩ := h.encoded
  obtain ⟨family', hfamily', hencoded'⟩ := h'.encoded
  rw [hfamily] at hfamily'
  obtain rfl := Option.some.inj hfamily'
  rw [hencoded.unique hencoded']

section

variable {sdk : Sdk} {locals : Locals} {request : SigningRequest} {src : ByteStream}
  {bc : BocContext}

/-- The bag of cells of a run that got past its empty list. -/
def Reception.boc (reception : Reception src bc) (h : 0 < reception.cells.length) : Boc where
  header := reception.header
  announced := reception.announced
  cells := reception.cells
  tail := reception.rest.getCursor
  admitted := reception.admitted
  complete := reception.complete.imp_right fun hend =>
    ⟨List.ne_nil_of_length_pos h, reception.length_le_announced, hend⟩
  bounded := reception.length_le

/-- A request is prepared for one message, and shows it. -/
theorem exists_sent {p : Prepared} (haddress : request.prependAddress.length = addressLength)
    (h : request.prepare sdk locals bc src = .ok p) :
    ∃ (boc : Boc) (message : WalletMessage), SentAs request src boc message ∧
      message.shown sdk locals request = .ok (p.decoded.flow, p.decoded.display) := by
  obtain ⟨next, parsed, family, _, _, hparse, hfound⟩ := prepare_ok h
  have hfamily := hfound.family_eq
  obtain ⟨reception, rfl⟩ := exists_reception hparse
  obtain ⟨received, root, toHash, hreceived, hprepares, hsigned⟩ :=
    reception.prepares hfamily h
  have hpos := (List.getElem?_eq_some_iff.mp hreceived).1
  obtain ⟨message, hencoded, hshown⟩ := (WalletMessage.decodes_iff reception.parsed_cells hreceived
    family).mp ⟨p.decoded, hprepares.decode, rfl, rfl⟩
  refine ⟨reception.boc hpos, message, ⟨reception.bytes.symm, ⟨family, hfamily, hencoded⟩,
    fun c hc r hr => ?_, fun hprefixed root' hroot' => ?_⟩, hshown⟩
  · obtain ⟨i, hi⟩ := List.mem_iff_getElem?.mp hc
    exact hsigned.refs_lt hi hr
  · obtain rfl := Option.some.inj (hreceived.symm.trans hroot')
    obtain rfl := Option.some.inj (hfamily.symm.trans hprefixed)
    obtain ⟨hdata, hroom⟩ := hprepares.room hreceived haddress
    exact ⟨haddress, decodePrefixedContract_data_ne hprepares.decode, hdata, hroom⟩

/-- What `prepare_ok` took apart, put together again. -/
theorem exists_prepared {next : ByteStream} {parsed toHash hashed : BocContext} {cells : List RawCell}
    {root : RawCell} {family : WalletFamily} {d : Decoded}
    (hparse : deserializeCellsTree src bc = .ok (next, parsed)) (hparsed : Parsed parsed cells)
    (hroot : cells[rootCellIndex]? = some root) (hfamily : request.family = some family)
    (hdecode : decodeFor sdk locals request parsed root.slice family = .ok d)
    (hcontext : contextToHash locals request parsed family = .ok toHash)
    (hhash : calcCellHashes sdk toHash.cellsCount toHash = .ok hashed) :
    ∃ p, request.prepare sdk locals bc src = .ok p ∧ p.decoded = d := by
  have hpayload := (@preparePayloadHash_eq_ok sdk request.ctx _ _ _).mpr ⟨hhash, rfl⟩
  have hcount : parsed.cellsCount > rootCellIndex := by
    rw [hparsed.count]
    exact (List.getElem?_eq_some_iff.mp hroot).1
  obtain ⟨_, hholds⟩ := hparsed.holds _ _ hroot
  unfold SigningRequest.family at hfamily
  unfold SigningRequest.prepare prepareToSign
  rw [hparse, ok_bind]
  simp only
  rw [validate_of_true hcount, ok_bind, hholds.fromCell, ok_bind, hfamily]
  cases family with
  | walletV3 =>
    obtain rfl := pure_eq_ok.mp hcontext
    rw [show decodeWalletV3 sdk locals parsed root.slice request.ctx = _ from hdecode, ok_bind,
      hpayload]
    exact ⟨_, rfl, rfl⟩
  | contract =>
    obtain rfl := pure_eq_ok.mp hcontext
    rw [show decodeContract sdk locals parsed (parsed.cells rootCellIndex) root.slice request.wc
      request.address request.ctx = _ from hdecode, ok_bind, hpayload]
    exact ⟨_, rfl, rfl⟩
  | prefixedContract =>
    obtain ⟨cell, hcell, htoHash⟩ := bind_eq_ok.mp hcontext
    obtain rfl := pure_eq_ok.mp htoHash
    rw [show decodePrefixedContract sdk locals parsed root.slice request.wc request.address
      request.ctx = _ from hdecode, ok_bind, hcell, ok_bind, hpayload]
    exact ⟨_, rfl, rfl⟩

/-- The context to hash of a message that was sent. -/
theorem SentAs.hashes {parsed : BocContext} {boc : Boc} {message : WalletMessage}
    {family : WalletFamily} (h : SentAs request src boc message)
    (hfamily : request.family = some family) (hparsed : Parsed parsed boc.cells)
    (hkey : parsed.publicKeyCellIndex = 0) :
    ∃ toHash hashed, contextToHash locals request parsed family = .ok toHash ∧
      calcCellHashes sdk toHash.cellsCount toHash = .ok hashed := by
  have hforward := boc.admitted.forward
  have hrefs : ∀ (i : Nat) (c : RawCell), boc.cells[i]? = some c → c.refs.length ≤ maxReferencesCount ∧
      ∀ r ∈ c.refs, i < r.toNat ∧ r.toNat < maxContractCellsCount := fun i c hc =>
    ⟨hforward.refs_le c (List.mem_of_getElem? hc), fun r hr =>
      ⟨hforward.later i c hc r hr, h.slots c (List.mem_of_getElem? hc) r hr⟩⟩
  have hown : ∀ (i : Nat) (c : RawCell) (rest : List UInt8), boc.cells[i]? = some c → ∀ toHash : BocContext,
      toHash.publicKeyCellIndex = 0 → HashesAt toHash i c rest := by
    intro i c rest hc toHash hindex
    obtain ⟨hle, hslots⟩ := hrefs i c hc
    refine ⟨⟨?_, fun hp => ?_, fun hboth => absurd hindex hboth.1⟩, hle, hslots⟩
    · exact Nat.lt_of_lt_of_le (List.getElem?_eq_some_iff.mp hc).1 boc.bounded
    · rw [List.length_append]
      exact Nat.le_add_right_of_le (hforward.pruned_size c (List.mem_of_getElem? hc) hp)
  have hplain : ∃ hashed, calcCellHashes sdk parsed.cellsCount parsed = .ok hashed := by
    apply calcCellHashes_exists
    intro i hi
    rw [hparsed.count] at hi
    have hc := List.getElem?_eq_getElem hi
    obtain ⟨rest, hholds⟩ := hparsed.holds i _ hc
    exact ⟨_, rest, hholds, hown i _ rest hc parsed hkey⟩
  cases family with
  | walletV3 =>
    obtain ⟨hashed, hhash⟩ := hplain
    exact ⟨parsed, hashed, rfl, hhash⟩
  | contract =>
    obtain ⟨hashed, hhash⟩ := hplain
    exact ⟨parsed, hashed, rfl, hhash⟩
  | prefixedContract =>
    obtain ⟨family, -, hencoded⟩ := h.encoded
    obtain ⟨root, hroot⟩ := hencoded.exists_root
    have hleaves := h.room hfamily root hroot
    obtain ⟨rest, hholds⟩ := hparsed.holds _ _ hroot
    obtain ⟨cell, prefixed, tail, hcell, hprefixed, hsize, -, hrefs', -⟩ :=
      prependAddressToCell_root request.wc hholds (Vector.length_toList ..) hleaves.address
        hleaves.data_ne root.bitLen_eq (hrefs _ _ hroot).1 hleaves.data_length
        hleaves.prefixed_length
    have hhash : ∃ hashed, calcCellHashes sdk (parsed.setCell rootCellIndex cell).cellsCount
        (parsed.setCell rootCellIndex cell) = .ok hashed := by
      apply calcCellHashes_exists
      intro i hi
      cases i with
      | zero =>
        refine ⟨prefixed, tail, hprefixed, hashFits_prefixed _ hsize, ?_, ?_⟩
        · rw [hrefs']
          exact (hrefs _ _ hroot).1
        · rw [hrefs']
          exact (hrefs _ _ hroot).2
      | succ i =>
        have hlt : i + 1 < boc.cells.length := hparsed.count ▸ hi
        have hc := List.getElem?_eq_getElem hlt
        obtain ⟨rest, hholds⟩ := hparsed.holds _ _ hc
        exact ⟨_, rest, hholds, hown _ _ rest hc _ hkey⟩
    obtain ⟨hashed, hhash⟩ := hhash
    refine ⟨_, hashed, ?_, hhash⟩
    unfold contextToHash
    rw [hcell]
    rfl

theorem SentAs.prepares {boc : Boc} {message : WalletMessage} {flow : Flow} {display : Display}
    (h : SentAs request src boc message) (hindex : bc.publicKeyCellIndex = 0)
    (hshown : message.shown sdk locals request = .ok (flow, display)) :
    ∃ p, request.prepare sdk locals bc src = .ok p ∧ p.decoded.flow = flow ∧
      p.decoded.display = display := by
  obtain ⟨family, hfamily, hencoded⟩ := h.encoded
  obtain ⟨next, hparse, hrest⟩ := deserializeCellsTree_serialize bc boc.header boc.announced
    boc.cells boc.tail h.bytes.symm boc.admitted boc.complete boc.bounded
  have hread := boc.readAs bc hrest
  have hkey := hread.publicKeyCellIndex.trans hindex
  obtain ⟨root, hroot⟩ := hencoded.exists_root
  obtain ⟨d, hdecode, rfl, rfl⟩ := (WalletMessage.decodes_iff hread.cells hroot family).mpr
    ⟨message, hencoded, hshown⟩
  obtain ⟨toHash, hashed, hcontext, hhash⟩ := @SentAs.hashes sdk locals _ _ _ _ _ _ h hfamily
    hread.cells hkey
  obtain ⟨p, hp, rfl⟩ := exists_prepared hparse hread.cells hroot hfamily hdecode hcontext hhash
  exact ⟨p, hp, rfl, rfl⟩

/-- A string is prepared for a screen exactly when one message is sent as it, in one way,
and the screen is the one of that message. -/
theorem message_language (haddress : request.prependAddress.length = addressLength)
    (hindex : bc.publicKeyCellIndex = 0) (screen : Flow × Display) :
    (∃ p, request.prepare sdk locals bc src = .ok p ∧ p.decoded.flow = screen.1 ∧
      p.decoded.display = screen.2) ↔
    ∃! sent : Boc × WalletMessage, SentAs request src sent.1 sent.2 ∧
      sent.2.shown sdk locals request = .ok screen := by
  constructor
  · rintro ⟨p, hp, hflow, hdisplay⟩
    obtain ⟨boc, message, hsent, hshown⟩ := exists_sent haddress hp
    rw [hflow, hdisplay] at hshown
    exact ⟨(boc, message), ⟨hsent, hshown⟩, fun other hother => hother.1.unique hsent⟩
  · rintro ⟨sent, ⟨hsent, hshown⟩, -⟩
    exact hsent.prepares hindex hshown

end

/-- The screen of 5 nano-EVER to an account of the basechain. -/
def attachedScreen : Flow × Display :=
  (.transfer, ⟨some (ascii ['0', ':'] ++ hexText (List.replicate 32 0x55) ++ [0]),
    some (amountField (ascii ['0', '.', '0', '0', '0', '0', '0', '0', '0', '0', '5', ' ', 'E', 'V',
      'E', 'R'])), none⟩)

theorem message_language_attached :
    ∃! sent : Boc × WalletMessage, SentAs (plainRequest 0)
        (received (serialize plainHeader 0x02 attachedTransfer)) sent.1 sent.2 ∧
      sent.2.shown testSdk zeroLocals (plainRequest 0) = .ok attachedScreen := by
  have hrun : Succeeds ((plainRequest 0).prepare testSdk zeroLocals BocContext.zero
      (received (serialize plainHeader 0x02 attachedTransfer))) fun p =>
        p.decoded.flow = attachedScreen.1 ∧ p.decoded.display = attachedScreen.2 := by
    decide +kernel
  exact (message_language (by decide) rfl attachedScreen).mp hrun.exists

end EverscaleLedger.Properties
