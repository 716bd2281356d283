import EverscaleLedger.Properties.HonestTransfer

/-! Confirmations of a multisig transaction: where each family of contract wallets takes
the id from, and what it shows and signs. -/
namespace EverscaleLedger.Properties

open Library Source Slice

def confirmTransactionId : Nat := 447168749

/-- The eight bytes of a transaction id. -/
def idBytes (id : UInt64) : List UInt8 := Bits.pack (Bits.ofNat (8 * transactionIdLength) id.toNat)

theorem length_confirmation_lt (header : CallHeader) (id : UInt64) :
    (header.bits confirmTransactionId ++
      Bits.ofNat (8 * transactionIdLength) id.toNat).length < 1024 := by
  have hheader := (header.length_bits confirmTransactionId).2
  rw [List.length_append, Bits.length_ofNat, transactionIdLength]
  omega

/-- The call in one cell: the id comes right after the function id. -/
def confirmation (header : CallHeader) (id : UInt64) : RawCell :=
  .ordinary (header.bits confirmTransactionId ++ Bits.ofNat (8 * transactionIdLength) id.toNat) []
    (length_confirmation_lt header id) no_refs_lt

/-- The call in two cells: the arguments have their own, as those of a transfer do. -/
def confirmationInCells (header : CallHeader) (id : UInt64) : List RawCell :=
  [.ordinary (header.bits confirmTransactionId) [1]
      (by have hheader := (header.length_bits confirmTransactionId).2; omega) one_ref_lt,
    .ordinary (Bits.ofNat (8 * transactionIdLength) id.toNat) []
      (by rw [Bits.length_ofNat, transactionIdLength]; decide) no_refs_lt]

/-- The screens ask to confirm this transaction. -/
structure AsksToConfirm (id : UInt64) (decoded : Decoded) : Prop where
  flow : decoded.flow = .confirm
  transactionId : decoded.display.transactionIdStr =
    some (hexText (idBytes id) ++ List.replicate 4 0)

theorem length_idBytes (id : UInt64) : (idBytes id).length = transactionIdLength := by
  rw [idBytes, Bits.length_pack, Bits.length_ofNat]
  rfl

theorem confirmation_encodes (header : CallHeader) (id : UInt64) :
    (confirmation header id).Encodes
      (header.bits confirmTransactionId ++ Bits.ofNat (8 * transactionIdLength) id.toNat) [] :=
  RawCell.ordinary_encodes (length_confirmation_lt header id) (by decide)

theorem confirmationBoc (header : CallHeader) (id : UInt64) :
    OrdinaryBoc [confirmation header id] := by
  apply OrdinaryBoc.of_plain
  · exact List.forall_mem_singleton.mpr rfl
  · exact (by decide : ForwardRefs [[]])

theorem confirmationInCells_boc (header : CallHeader) (id : UInt64) :
    OrdinaryBoc (confirmationInCells header id) := by
  apply OrdinaryBoc.of_plain
  · exact List.forall_mem_cons.mpr ⟨rfl, List.forall_mem_singleton.mpr rfl⟩
  · exact (by decide : ForwardRefs [[1], []])

section

variable {sdk : Sdk} (hhex : ∀ input, sdk.formatHex input = hexText input)

include hhex

theorem setTransactionId_eq (id : UInt64) (display : Display) :
    setTransactionId sdk (idBytes id) display = .ok { display with
      transactionIdStr := some (hexText (idBytes id) ++ List.replicate 4 0) } := by
  have hlength : (hexText (idBytes id) ++ [0]).length = 17 := by
    rw [List.length_append, length_hexText, length_idBytes]
    rfl
  rw [setTransactionId, hhex, storeMany_eq_ok.mpr ⟨by rw [hlength]; decide, rfl⟩, ok_bind, hlength]
  simp only [List.take_zero, List.nil_append, List.append_assoc]
  rfl

/-- The arguments of the call, wherever they are. -/
theorem confirmation_params {slice : SliceData} {id : UInt64} {rest : List Bool}
    (h : Unread slice (Bits.ofNat (8 * transactionIdLength) id.toNat ++ rest)) (locals : Locals)
    (wc : UInt8) (address : List UInt8) (ctx : SignTransactionContext) (display : Display) :
    ∃ next, deserializeMultisigParams sdk locals slice confirmTransactionId wc address ctx display =
      .ok (.confirm, next, { display with
        transactionIdStr := some (hexText (idBytes id) ++ List.replicate 4 0) }) := by
  have hvalue : Unread slice (Bits.ofBytes (idBytes id) ++ rest) := by
    rw [idBytes, ofBytes_packed]
    exact h
  obtain ⟨next, hread, -⟩ := hvalue.deserializeValue
  rw [length_idBytes] at hread
  refine ⟨next, ?_⟩
  rw [deserializeMultisigParams, show ContractFunction.ofId confirmTransactionId =
    some .confirmTransaction from rfl]
  simp only [hread, ok_bind, setTransactionId_eq hhex id display]
  rfl

end

/-! In one cell. -/

section

variable {header : CallHeader} {id : UInt64} {parsed : BocContext} {sdk : Sdk} {locals : Locals}
  {request : SigningRequest}

/-- The older wallets read the id behind the function id. -/
theorem confirmation_decodes (hhex : ∀ input, sdk.formatHex input = hexText input)
    (hparsed : Parsed parsed [confirmation header id]) :
    ∃ d, decodeFor sdk locals request parsed (confirmation header id).slice .contract = .ok d ∧
      AsksToConfirm id d ∧ d.giftIndex = rootCellIndex := by
  have hencodes := confirmation_encodes header id
  have hbits := hencodes.unread
  rw [Bits.completed_eq, List.append_assoc] at hbits
  obtain ⟨s1, h1, hs1⟩ := hbits.deserializeContractHeader (by decide)
  obtain ⟨s2, h2⟩ := confirmation_params hhex hs1 locals request.wc request.address request.ctx
    Display.untouched
  obtain ⟨rest, -, hholds⟩ := @Parsed.cellAt parsed _ hparsed rootCellIndex _ rfl
  refine ⟨⟨.confirm, { Display.untouched with
    transactionIdStr := some (hexText (idBytes id) ++ List.replicate 4 0) }, rootCellIndex, s2, none⟩,
    ?_, ⟨rfl, rfl⟩, rfl⟩
  have hsame : ContractFunction.ofId confirmTransactionId = some .confirmTransaction := rfl
  simp only [decodeFor, decodeContract, h1, ok_bind, hsame, decide_true, true_or,
    validate_of_true, if_true, pure_bind, h2]
  simp only [decodeGiftBody, hholds.getRefs, ok_bind, hencodes.refs]
  rfl

/-- The wallets that sign over their address ask for a second cell. -/
theorem confirmation_refused (hparsed : Parsed parsed [confirmation header id]) :
    decodeFor sdk locals request parsed (confirmation header id).slice .prefixedContract =
      .error (.thrown .invalidCellIndex) := by
  have hbits := (confirmation_encodes header id).unread
  rw [Bits.completed_eq, List.append_assoc] at hbits
  obtain ⟨s1, h1, -⟩ := hbits.deserializeContractHeader (by decide)
  have hcount : ¬ parsed.cellsCount > giftCellIndex := by
    rw [hparsed.count]
    exact Nat.lt_irrefl 1
  simp only [decodeFor, decodePrefixedContract, h1, ok_bind, cellAt]
  rw [validate, require, if_neg hcount]
  rfl

end

/-- A single cell without references is hashed as it is serialized. -/
theorem digestCells_alone (sdk : Sdk) {c : RawCell} {bc : BocContext} (hd1 : c.d1 = 0)
    (hrefs : c.refs = []) :
    (digestCells sdk [c] 0 1 bc).hashes rootCellIndex = sdk.sha256 c.bytes := by
  have hdigest : digestCells sdk [c] 0 1 bc = digestCell sdk bc rootCellIndex c := rfl
  have hplain : ¬ c.Pruned := by
    intro hpruned
    rw [show c.d1 = prunedBranchD1 from hpruned] at hd1
    exact absurd hd1 (by decide)
  rw [hdigest, (digestCell_self sdk bc rootCellIndex c).1, RawCell.hashIn, if_neg hplain]
  congr 1
  simp [RawCell.representation, rootCellIndex, RawCell.depthBytes, RawCell.hashBytes,
    RawCell.bytes, hd1, hrefs]

/-- The root that is signed is the cell that the id was read from. -/
theorem confirmation_signed {header : CallHeader} {id : UInt64} {sdk : Sdk} {locals : Locals}
    {request : SigningRequest} (hfamily : request.family = some .contract)
    (hhex : ∀ input, sdk.formatHex input = hexText input) {bc : BocContext}
    (bocHeader : BocHeader) (tail : List UInt8) {src : ByteStream} (hcursor : src.getCursor = bocHeader.bytes 1 ++
      (serializeCells [confirmation header id] ++ tail)) :
    ∃ p, request.prepare sdk locals bc src = .ok p ∧ AsksToConfirm id p.decoded ∧
      p.decoded.giftIndex = rootCellIndex ∧
      p.toSign = toSignPrefix request.ctx ++ (sdk.sha256 (confirmation header id).bytes).toList := by
  have hboc := confirmationBoc header id
  obtain ⟨next, parsed, hparse, hparsed, -⟩ := hboc.parsed bc bocHeader tail hcursor
  obtain ⟨d, hdecode, hasks, hgift⟩ := @confirmation_decodes header id parsed sdk locals request
    hhex hparsed
  obtain ⟨rest, hroot⟩ := hparsed.holds rootCellIndex _ rfl
  -- the root is the only cell, so no cell is taken for that of the public key
  have hhash := hboc.calcCellHashes_eq sdk hparsed (Nat.eq_zero_or_pos _)
  have hrefs := (confirmation_encodes header id).refs
  have hcount : parsed.cellsCount > rootCellIndex := by
    rw [hparsed.count]
    exact Nat.succ_pos 0
  unfold SigningRequest.family at hfamily
  unfold decodeFor at hdecode
  unfold SigningRequest.prepare prepareToSign
  simp only [hparse, ok_bind, validate_of_true hcount, hroot.fromCell, hfamily, hdecode,
    preparePayloadHash_eq_ok.mpr ⟨hhash, rfl⟩]
  refine ⟨_, rfl, hasks, hgift, ?_⟩
  simp only [List.length_singleton, digestCells_alone sdk rfl hrefs]

theorem confirmation_rejected {header : CallHeader} {id : UInt64} {sdk : Sdk} {locals : Locals}
    {request : SigningRequest} (hfamily : request.family = some .prefixedContract)
    {bc : BocContext} (bocHeader : BocHeader) (tail : List UInt8) {src : ByteStream}
    (hcursor : src.getCursor = bocHeader.bytes 1 ++
      (serializeCells [confirmation header id] ++ tail)) :
    request.prepare sdk locals bc src = .error (.thrown .invalidCellIndex) := by
  obtain ⟨next, parsed, hparse, hparsed, -⟩ :=
    (confirmationBoc header id).parsed bc bocHeader tail hcursor
  have hdecode := @confirmation_refused header id parsed sdk locals request hparsed
  obtain ⟨rest, hroot⟩ := hparsed.holds rootCellIndex _ rfl
  have hcount : parsed.cellsCount > rootCellIndex := by
    rw [hparsed.count]
    exact Nat.succ_pos 0
  unfold SigningRequest.family at hfamily
  unfold decodeFor at hdecode
  unfold SigningRequest.prepare prepareToSign
  simp only [hparse, ok_bind, validate_of_true hcount, hroot.fromCell, hfamily, hdecode]
  rfl

/-! In two cells. -/

/-- The wallets that sign over their address read the id from the second cell. -/
theorem confirmationInCells_decodes {header : CallHeader} {id : UInt64} {parsed : BocContext}
    {sdk : Sdk} {locals : Locals} {request : SigningRequest}
    (hhex : ∀ input, sdk.formatHex input = hexText input)
    {root arguments : RawCell} (hroot : root.Encodes (header.bits confirmTransactionId) [1])
    (harguments : arguments.Encodes (Bits.ofNat (8 * transactionIdLength) id.toNat) [])
    (hparsed : Parsed parsed [root, arguments]) :
    ∃ d, decodeFor sdk locals request parsed root.slice .prefixedContract = .ok d ∧
      AsksToConfirm id d ∧ d.giftIndex = giftCellIndex := by
  have hrootBits := hroot.unread
  rw [Bits.completed_eq] at hrootBits
  obtain ⟨s1, h1, -⟩ := hrootBits.deserializeContractHeader (by decide)
  have hargumentBits := harguments.unread
  rw [Bits.completed_eq] at hargumentBits
  obtain ⟨s2, h2⟩ := confirmation_params hhex hargumentBits locals request.wc request.address
    request.ctx Display.untouched
  obtain ⟨rest, hcell, hholds⟩ := @Parsed.cellAt parsed _ hparsed giftCellIndex arguments rfl
  refine ⟨⟨.confirm, { Display.untouched with
    transactionIdStr := some (hexText (idBytes id) ++ List.replicate 4 0) }, giftCellIndex, s2, none⟩,
    ?_, ⟨rfl, rfl⟩, rfl⟩
  simp only [decodeFor, decodePrefixedContract, h1, ok_bind, hcell, hholds.fromCell, h2]
  simp only [decodeGiftBody, hholds.getRefs, ok_bind, harguments.refs]
  rfl

theorem confirmationInCells_encodes (header : CallHeader) (id : UInt64) :
    ∃ root arguments, confirmationInCells header id = [root, arguments] ∧
      root.Encodes (header.bits confirmTransactionId) [1] ∧
      arguments.Encodes (Bits.ofNat (8 * transactionIdLength) id.toNat) [] :=
  ⟨_, _, rfl, RawCell.ordinary_encodes _ (by decide), RawCell.ordinary_encodes _ (by decide)⟩

theorem leavesRoom_of_call {header : CallHeader} {functionId : Nat} {root : RawCell}
    {refs prependAddress : List UInt8} (hroot : root.Encodes (header.bits functionId) refs)
    (hrefs : refs.length ≤ 4) (haddress : prependAddress.length = addressLength) :
    LeavesRoom root prependAddress := by
  have hbits := header.length_bits functionId
  have hlength := hroot.length_data
  refine ⟨haddress, fun hnil => ?_, by omega, ?_⟩
  · rw [hnil, List.length_nil] at hlength
    omega
  · rw [hroot.bits_eq, hroot.refs]
    omega

/-- A confirmation is shown as one with its id by every wallet: by the older ones from the
cell that they sign, by those that sign over their address from the cell of the arguments,
which must not be taken for a public key cell. The latter refuse the form in one cell. -/
theorem confirmation_displayed (header : CallHeader) (id : UInt64) {sdk : Sdk}
    (hhex : ∀ input, sdk.formatHex input = hexText input) (locals : Locals)
    (request : SigningRequest) (bc : BocContext) (bocHeader : BocHeader) (tail : List UInt8)
    (src : ByteStream) :
    (request.family = some .contract →
      src.getCursor = bocHeader.bytes 1 ++ (serializeCells [confirmation header id] ++ tail) →
      ∃ p, request.prepare sdk locals bc src = .ok p ∧ AsksToConfirm id p.decoded ∧
        p.decoded.giftIndex = rootCellIndex ∧ p.toSign =
          toSignPrefix request.ctx ++ (sdk.sha256 (confirmation header id).bytes).toList) ∧
    (request.family = some .prefixedContract →
      src.getCursor = bocHeader.bytes 1 ++ (serializeCells [confirmation header id] ++ tail) →
      request.prepare sdk locals bc src = .error (.thrown .invalidCellIndex)) ∧
    (request.family = some .prefixedContract → request.prependAddress.length = addressLength →
      bc.publicKeyCellIndex = 0 → src.getCursor =
        bocHeader.bytes 2 ++ (serializeCells (confirmationInCells header id) ++ tail) →
      ∃ p, request.prepare sdk locals bc src = .ok p ∧ AsksToConfirm id p.decoded ∧
        p.decoded.giftIndex = giftCellIndex) := by
  refine ⟨fun hfamily hcursor => ?_, fun hfamily hcursor => ?_,
    fun hfamily haddress hindex hcursor => ?_⟩
  · exact confirmation_signed hfamily hhex bocHeader tail hcursor
  · exact confirmation_rejected hfamily bocHeader tail hcursor
  · obtain ⟨root, arguments, hcells, hroot, harguments⟩ := confirmationInCells_encodes header id
    have hboc := confirmationInCells_boc header id
    rw [hcells] at hcursor hboc
    obtain ⟨parsed, hparsed, hends⟩ := hboc.endsAs sdk locals hfamily
      (fun _ => leavesRoom_of_call hroot (by decide) haddress) hindex bocHeader tail hcursor
    obtain ⟨d, hdecode, hasks, hgift⟩ := @confirmationInCells_decodes header id parsed sdk locals
      request hhex root arguments hroot harguments hparsed
    rw [hdecode] at hends
    obtain ⟨p, hp, rfl⟩ := hends
    exact ⟨p, hp, hasks, hgift⟩

/-- The id of a pending transaction, as three wallets get it. -/
theorem confirmation_displayed_some :
    (∃ p, (plainRequest 2).prepare testSdk zeroLocals BocContext.zero
        (received (serialize plainHeader 0x01
          [confirmation ⟨none, 0x17F, 0x64F9E1D5⟩ 0x64F9E1D52B3D6000])) = .ok p ∧
      AsksToConfirm 0x64F9E1D52B3D6000 p.decoded) ∧
    (plainRequest 7).prepare testSdk zeroLocals BocContext.zero
        (received (serialize plainHeader 0x01
          [confirmation ⟨none, 0x17F, 0x64F9E1D5⟩ 0x64F9E1D52B3D6000])) =
      .error (.thrown .invalidCellIndex) ∧
    ∃ p, (plainRequest 8).prepare testSdk zeroLocals BocContext.zero
        (received (serialize plainHeader 0x02
          (confirmationInCells ⟨none, 0x17F, 0x64F9E1D5⟩ 0x64F9E1D52B3D6000))) = .ok p ∧
      AsksToConfirm 0x64F9E1D52B3D6000 p.decoded := by
  have hdisplayed := fun request cells => @confirmation_displayed ⟨none, 0x17F, 0x64F9E1D5⟩
    0x64F9E1D52B3D6000 testSdk (fun _ => rfl) zeroLocals request BocContext.zero plainHeader []
    (received (serialize plainHeader (UInt8.ofNat cells.length) cells))
  refine ⟨?_, ?_, ?_⟩
  · obtain ⟨p, hp, hasks, -⟩ := (hdisplayed (plainRequest 2) [confirmation ⟨none, 0x17F, 0x64F9E1D5⟩
      0x64F9E1D52B3D6000]).1 rfl (by rw [List.append_nil]; rfl)
    exact ⟨p, hp, hasks⟩
  · exact (hdisplayed (plainRequest 7) [confirmation ⟨none, 0x17F, 0x64F9E1D5⟩
      0x64F9E1D52B3D6000]).2.1 rfl (by rw [List.append_nil]; rfl)
  · obtain ⟨p, hp, hasks, -⟩ := (hdisplayed (plainRequest 8) (confirmationInCells
      ⟨none, 0x17F, 0x64F9E1D5⟩ 0x64F9E1D52B3D6000)).2.2 rfl (by decide) rfl
      (by rw [List.append_nil]; rfl)
    exact ⟨p, hp, hasks⟩

/-- Not every multisig wallet accepts the form in one cell. -/
theorem confirmation_not_alike :
    ¬ ∀ (header : CallHeader) (id : UInt64) (request : SigningRequest) (src : ByteStream),
      request.family = some .contract ∨ request.family = some .prefixedContract →
      src.getCursor = plainHeader.bytes 1 ++ (serializeCells [confirmation header id] ++ []) →
      ∃ p, request.prepare testSdk zeroLocals BocContext.zero src = .ok p ∧
        AsksToConfirm id p.decoded := by
  intro hall
  obtain ⟨p, hp, -⟩ := hall ⟨none, 0, 0⟩ 1 (plainRequest 7) (received (serialize plainHeader 0x01
    [confirmation ⟨none, 0, 0⟩ 1])) (Or.inr rfl) (by rw [List.append_nil]; rfl)
  rw [@confirmation_rejected ⟨none, 0, 0⟩ 1 testSdk zeroLocals (plainRequest 7) rfl BocContext.zero
    plainHeader [] _ (by rw [List.append_nil]; rfl)] at hp
  cases hp

end EverscaleLedger.Properties
