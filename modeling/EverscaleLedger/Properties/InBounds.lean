import EverscaleLedger.Properties.AmountLine
import EverscaleLedger.Properties.BitReaders
import EverscaleLedger.Properties.DecodedCells

/-! The parser, the decoders and the hashing of received cells stay inside their
buffers: a call throws or ends with a result. -/
namespace EverscaleLedger.Properties

open Library Source Slice

/-- The call leaves no buffer, and its result is of some kind. -/
abbrev InBounds {α : Type _} (property : α → Prop) (x : Outcome α) : Prop :=
  Confined .fault property x

section

variable {α : Type _} {property : α → Prop}

theorem inBounds_ok {value : α} (h : property value) : InBounds property (.ok value) :=
  Confined.of_ok rfl h

theorem inBounds_thrown (error : Err) : InBounds property (.error (.thrown error) : Outcome α) :=
  Confined.of_error nofun

theorem inBounds_ite {condition : Prop} [Decidable condition] {x y : Outcome α}
    (hx : InBounds property x) (hy : InBounds property y) :
    InBounds property (if condition then x else y) := by
  split
  · exact hx
  · exact hy

theorem validate_inBounds (condition : Prop) [Decidable condition] (error : Err) :
    InBounds (fun _ => condition) (validate condition error) := Confined.require nofun

theorem load_inBounds {pointer : List UInt8} {index : Nat} (h : index < pointer.length) :
    InBounds (fun _ => True) (load pointer index) :=
  Confined.of_ok (load_eq_ok.mpr (List.getElem?_eq_getElem h)) trivial

theorem loadMany_inBounds {pointer : List UInt8} {count : Nat} (h : count ≤ pointer.length) :
    InBounds (fun block => block.length = count) (loadMany pointer count) :=
  Confined.of_ok (loadMany_eq_ok.mpr ⟨h, rfl⟩) (List.length_take_of_le h)

theorem store_inBounds {object : List UInt8} {index : Nat} (value : UInt8)
    (h : index < object.length) :
    InBounds (fun result => result.length = object.length) (store object index value) :=
  Confined.of_ok (store_eq_ok.mpr ⟨h, rfl⟩) List.length_set

end

/-! The bit readers. -/

section

variable {slice : SliceData}

/-- A reader leaves its slice sound. -/
abbrev Reads {α : Type _} (x : Outcome (α × SliceData)) : Prop :=
  InBounds (fun result => Sound result.2) x

theorem moveBy_inBounds (h : Sound slice) (bits : Nat) : InBounds Sound (slice.moveBy bits) := by
  unfold SliceData.moveBy
  exact (validate_inBounds _ _).bind fun _ _ => inBounds_ok ⟨h.size, h.length, h.window⟩

theorem getBits_inBounds (h : Sound slice) (offset bits : Nat) :
    InBounds (fun _ => True) (slice.getBits offset bits) := by
  by_cases hbits : offset + bits ≤ slice.remainingBits ∧ bits ≠ 0 ∧ bits ≤ 8
  · obtain ⟨hremaining, hpos, hmax⟩ := hbits
    have hvalue := getBits_returned h.framed (Nat.pos_of_ne_zero hpos) hmax hremaining
    exact Confined.of_ok hvalue trivial
  · unfold SliceData.getBits
    apply (validate_inBounds _ _).bind
    intro _ hremaining
    apply (validate_inBounds _ _).bind
    intro _ hmax
    exact absurd ⟨hremaining, hmax⟩ hbits

theorem getNextBit_inBounds (h : Sound slice) : Reads slice.getNextBit := by
  unfold SliceData.getNextBit
  exact (getBits_inBounds h 0 1).bind fun _ _ =>
    (moveBy_inBounds h 1).bind fun _ hnext => inBounds_ok hnext

theorem getNextByte_inBounds (h : Sound slice) : Reads slice.getNextByte := by
  unfold SliceData.getNextByte SliceData.getByte
  exact (getBits_inBounds h 0 8).bind fun _ _ =>
    (moveBy_inBounds h 8).bind fun _ hnext => inBounds_ok hnext

theorem getInt_inBounds (h : Sound slice) (bits : Nat) :
    InBounds (fun _ => True) (slice.getInt bits) := by
  unfold SliceData.getInt
  apply (validate_inBounds _ _).bind
  intro _ _
  apply (validate_inBounds _ _).bind
  intro _ _
  split
  · exact inBounds_ok trivial
  have hbytes : InBounds (fun _ => True) (slice.getIntBytes (bits / 8)) :=
    foldlM_confined (fun _ => True) (fun _ i _ _ =>
      (getBits_inBounds h (8 * i) 8).bind fun _ _ => inBounds_ok trivial) trivial
  apply hbytes.bind
  intro _ _
  simp only
  split
  · exact (getBits_inBounds h _ _).bind fun _ _ => inBounds_ok trivial
  · exact inBounds_ok trivial

theorem getNextInt_inBounds (h : Sound slice) (bits : Nat) : Reads (slice.getNextInt bits) := by
  unfold SliceData.getNextInt
  exact (getInt_inBounds h bits).bind fun _ _ =>
    (moveBy_inBounds h bits).bind fun _ hnext => inBounds_ok hnext

end

/-! The field readers. -/

theorem orInto_inBounds {out : List UInt8} {index : Nat} (value : Nat) (h : index < out.length) :
    InBounds (fun result => result.length = out.length) (orInto out index value) :=
  Confined.of_ok (orInto_eq h value) List.length_set

/-- A field of any size at any offset: what lies behind the input is not read, and
what lies behind the field is not written. -/
theorem deserializeArray_inBounds {input : List UInt8} {inSize : Nat} (h : inSize ≤ input.length)
    (offset outSize : Nat) :
    InBounds (fun out => out.length = outSize) (deserializeArray input inSize offset outSize) := by
  unfold deserializeArray
  refine foldlM_confined _ (fun out j hj hout => ?_) List.length_replicate
  have hsize : j < outSize := List.mem_range.mp hj
  simp only
  apply (validate_inBounds _ _).bind
  intro _ hin
  apply (load_inBounds (by omega)).bind
  intro byte _
  apply (store_inBounds _ (by omega)).bind
  intro shifted hshifted
  have hlast : InBounds (fun result => result.length = outSize)
      (if j = outSize - 1 ∧ offset / 8 % 256 + j + 1 < inSize then do
        let next ← load input (offset / 8 % 256 + j + 1)
        orInto shifted j (next.toNat >>> (8 - offset % 8))
      else pure shifted) := by
    split
    · apply (load_inBounds (by omega)).bind
      intro next _
      exact (orInto_inBounds _ (by omega)).mono fun _ hlength => by omega
    · exact inBounds_ok (by omega)
  apply hlast.bind
  intro filled hfilled
  split
  · exact (orInto_inBounds _ (by omega)).mono fun _ hlength => by omega
  · exact inBounds_ok hfilled

section

variable {slice : SliceData}

/-- The slice after a decoder, and what goes with it. -/
abbrev Decodes {α : Type _} (property : α → Prop) (x : Outcome (SliceData × α)) : Prop :=
  InBounds (fun result => Sound result.1 ∧ property result.2) x

theorem size_le {slice : SliceData} (h : Sound slice) : slice.dataSizeBytes % 256 ≤ slice.data.length := by
  rw [h.size]
  exact Nat.mod_le _ _

theorem deserializeValue_inBounds (h : Sound slice) (length : Nat) :
    Decodes (fun value => value.length = length) (deserializeValue slice length) := by
  unfold deserializeValue
  exact (deserializeArray_inBounds (size_le h) _ _).bind fun value hvalue =>
    (moveBy_inBounds h _).bind fun next hnext => inBounds_ok ⟨hnext, hvalue⟩

theorem deserializeAddress_inBounds (h : Sound slice) (wc : UInt8) {address : List UInt8}
    (haddress : address.length = addressLength) :
    Decodes (fun result => result.2.length = addressLength) (deserializeAddress slice wc address) := by
  unfold deserializeAddress
  refine (getNextInt_inBounds h 2).bind fun ⟨kind, s⟩ hs => ?_
  apply (validate_inBounds _ _).bind
  intro _ _
  simp only
  split
  · refine (getNextBit_inBounds hs).bind fun ⟨_, s1⟩ h1 => ?_
    refine (getNextByte_inBounds h1).bind fun ⟨_, s2⟩ h2 => ?_
    apply (deserializeArray_inBounds (size_le h2) _ _).bind
    intro account haccount
    exact (moveBy_inBounds h2 _).bind fun s3 h3 => inBounds_ok ⟨h3, haccount⟩
  · exact inBounds_ok ⟨hs, haddress⟩

end

/-! The strings. -/

/-- What `set_amount` needs of the header: scratch has the decimals, and the ticker
ends inside its field. -/
def HeaderFits (ctx : SignTransactionContext) : Prop := ctx.decimals ≤ 37 ∧ 0 ∈ ctx.ticker

theorem setAmount_inBounds {ctx : SignTransactionContext} (hctx : HeaderFits ctx)
    {amount : List UInt8} {amountLength : Nat} (hamount : amountLength ≤ amount.length) (flags : Nat)
    (display : Display) :
    InBounds (fun _ => True)
      (setAmount amount amountLength flags ctx.decimals ctx.ticker display) := by
  have hfixed : ∀ text : List UInt8, text.length ≤ amountStrSize →
      InBounds (fun _ => True) (do
        validate (amountStrSize ≥ text.length) .invalidMessage
        let field ← storeMany (List.replicate amountStrSize 0) 0 text
        pure { display with amountStr := some field }) := by
    intro text htext
    apply (validate_inBounds _ _).bind
    intro _ hroom
    have hstored := (@storeMany_eq_ok (List.replicate amountStrSize 0) text _ 0).mpr
      ⟨by rw [List.length_replicate]; omega, rfl⟩
    exact Confined.of_ok (by rw [hstored]; rfl) trivial
  unfold setAmount
  simp only
  split
  · have hconvert : InBounds (fun _ => True)
        (convertHexAmountToDisplayable amount ctx.decimals amountLength amountStrSize) := by
      have htracks := @convert_tracks amount _ _ amountStrSize hamount hctx.1 (by decide)
      cases htext : convertHexAmountToDisplayable amount ctx.decimals amountLength amountStrSize with
      | ok text => exact inBounds_ok trivial
      | error e =>
        rw [htext] at htracks
        rw [htracks.1]
        exact inBounds_thrown _
    apply hconvert.bind
    intro text _
    rw [stringLength_of_mem hctx.2, ok_bind]
    apply (validate_inBounds _ _).bind
    intro _ hroom
    have hlength : (text ++ ascii [' '] ++ ctx.ticker.take (cString ctx.ticker).length).length =
        text.length + 1 + (cString ctx.ticker).length := by
      rw [take_cString, List.length_append, List.length_append]
      rfl
    have hstored := (@storeMany_eq_ok (List.replicate amountStrSize 0)
      (text ++ ascii [' '] ++ ctx.ticker.take (cString ctx.ticker).length) _ 0).mpr
      ⟨by rw [List.length_replicate, hlength]; omega, rfl⟩
    rw [hstored]
    exact inBounds_ok trivial
  split
  · exact hfixed _ (by decide)
  split
  · exact hfixed _ (by decide)
  · exact inBounds_thrown _

theorem setTransactionId_inBounds (sdk : Sdk) {id : List UInt8} (h : id.length = transactionIdLength)
    (display : Display) : InBounds (fun _ => True) (setTransactionId sdk id display) := by
  have hstored := (@storeMany_eq_ok (List.replicate transactionIdStrSize 0)
    (sdk.formatHex id ++ [0]) _ 0).mpr
    ⟨by rw [List.length_replicate, List.length_append, sdk.formatHex_length, h]; decide, rfl⟩
  unfold setTransactionId
  simp only
  rw [hstored]
  exact inBounds_ok trivial

/-! The decoders. -/

section

variable {sdk : Sdk} {locals : Locals} {ctx : SignTransactionContext} {slice : SliceData}

theorem deserializeIntMessageHeader_inBounds (hctx : HeaderFits ctx) (h : Sound slice) (flags : Nat)
    (display : Display) :
    Decodes (fun _ => True) (deserializeIntMessageHeader sdk locals slice flags ctx display) := by
  unfold deserializeIntMessageHeader
  refine (getNextBit_inBounds h).bind fun ⟨_, s1⟩ h1 => ?_
  apply (validate_inBounds _ _).bind
  intro _ _
  refine (getNextBit_inBounds h1).bind fun ⟨_, s2⟩ h2 => ?_
  refine (getNextBit_inBounds h2).bind fun ⟨_, s3⟩ h3 => ?_
  refine (getNextBit_inBounds h3).bind fun ⟨_, s4⟩ h4 => ?_
  refine (deserializeAddress_inBounds h4 0 (Vector.length_toList ..)).bind fun ⟨s5, _⟩ h5 => ?_
  refine (deserializeAddress_inBounds h5.1 0 (Vector.length_toList ..)).bind fun ⟨s6, _⟩ h6 => ?_
  refine (getNextInt_inBounds h6.1 4).bind fun ⟨amountBytes, s7⟩ h7 => ?_
  apply (validate_inBounds _ _).bind
  intro _ _
  refine (deserializeValue_inBounds h7 amountBytes).bind fun ⟨s8, amount⟩ h8 => ?_
  apply (setAmount_inBounds hctx (Nat.le_of_eq h8.2.symm) flags _).bind
  intro shown _
  refine (getNextBit_inBounds h8.1).bind fun ⟨_, s9⟩ h9 => ?_
  refine (getNextInt_inBounds h9 4).bind fun ⟨_, s10⟩ h10 => ?_
  apply (validate_inBounds _ _).bind
  intro _ _
  refine (getNextInt_inBounds h10 4).bind fun ⟨_, s11⟩ h11 => ?_
  apply (validate_inBounds _ _).bind
  intro _ _
  refine (getNextInt_inBounds h11 64).bind fun ⟨_, s12⟩ h12 => ?_
  exact (getNextInt_inBounds h12 32).bind fun ⟨_, s13⟩ h13 => inBounds_ok ⟨h13, trivial⟩

/-- The slices of a token body are sound. -/
def SourceSound (source : TokenSource) : Prop :=
  Sound source.slice ∧ ∀ refSlice, source.refSlice = some refSlice → Sound refSlice

theorem SourceSound.current {source : TokenSource} (h : SourceSound source) :
    Sound source.current := by
  unfold TokenSource.current
  split
  · cases href : source.refSlice with
    | none => exact h.1
    | some refSlice => exact h.2 refSlice href
  · exact h.1

theorem SourceSound.advance {source : TokenSource} (h : SourceSound source) {next : SliceData}
    (hnext : Sound next) : SourceSound (source.advance next) := by
  unfold TokenSource.advance
  split
  · exact ⟨h.1, fun _ heq => Option.some.inj heq ▸ hnext⟩
  · exact ⟨hnext, h.2⟩

theorem needBits_inBounds {source : TokenSource} (h : SourceSound source) (bits : Nat) :
    InBounds SourceSound (source.needBits bits) := by
  unfold TokenSource.needBits
  split
  · split
    · exact inBounds_ok ⟨h.1, h.2⟩
    · exact inBounds_thrown _
  · exact inBounds_ok h

theorem deserializeTokenAmount_inBounds (hctx : HeaderFits ctx) {source : TokenSource}
    (h : SourceSound source) (display : Display) :
    InBounds (fun result => SourceSound result.1) (deserializeTokenAmount source ctx display) := by
  unfold deserializeTokenAmount
  apply (needBits_inBounds h _).bind
  intro needed hneeded
  refine (deserializeValue_inBounds hneeded.current _).bind fun ⟨s, amount⟩ hs => ?_
  exact (setAmount_inBounds hctx (Nat.le_of_eq hs.2.symm) _ _).bind fun _ _ =>
    inBounds_ok (hneeded.advance hs.1)

theorem deserializeTokenBody_inBounds (hctx : HeaderFits ctx) {source : TokenSource}
    (h : SourceSound source) (display : Display) :
    InBounds (fun _ => True) (deserializeTokenBody sdk locals source ctx display) := by
  have hfunction : ∀ {source : TokenSource}, SourceSound source → ∀ functionId,
      InBounds (fun _ => True)
        (deserializeTokenFunction sdk locals source functionId ctx display) := by
    intro source hsource functionId
    unfold deserializeTokenFunction
    split
    · refine (deserializeTokenAmount_inBounds hctx hsource display).bind fun ⟨s, shown⟩ hs => ?_
      apply (needBits_inBounds hs _).bind
      intro needed hneeded
      exact (deserializeAddress_inBounds hneeded.current 0 (Vector.length_toList ..)).bind
        fun _ _ => inBounds_ok trivial
    · exact (deserializeTokenAmount_inBounds hctx hsource display).bind fun _ _ =>
        inBounds_ok trivial
    · exact inBounds_ok trivial
  have hstart : SourceSound { source with onRef := decide (source.slice.remainingBits < 32) } := h
  unfold deserializeTokenBody
  apply inBounds_ite (inBounds_ok trivial)
  exact (getNextInt_inBounds hstart.current 32).bind fun ⟨functionId, s⟩ hs =>
    hfunction (hstart.advance hs) functionId

theorem deserializeRecipient_inBounds (h : Sound slice) (display : Display) :
    InBounds (fun result => Sound result.1 ∧ result.2.1.length = amountLength)
      (deserializeRecipient sdk locals slice display) := by
  unfold deserializeRecipient
  refine (deserializeAddress_inBounds h 0 (Vector.length_toList ..)).bind fun ⟨s1, _⟩ h1 => ?_
  refine (deserializeValue_inBounds h1.1 _).bind fun ⟨s2, amount⟩ h2 => ?_
  exact (getNextBit_inBounds h2.1).bind fun ⟨_, s3⟩ h3 => inBounds_ok ⟨h3, h2.2⟩

theorem deserializeMultisigParams_inBounds (hctx : HeaderFits ctx) (h : Sound slice)
    (functionId : Nat) (wc : UInt8) (address : List UInt8) (display : Display) :
    InBounds (fun _ => True)
      (deserializeMultisigParams sdk locals slice functionId wc address ctx display) := by
  unfold deserializeMultisigParams
  split
  · exact inBounds_ok trivial
  · refine (deserializeRecipient_inBounds h display).bind fun ⟨s, amount, shown⟩ hs => ?_
    refine (getNextByte_inBounds hs.1).bind fun ⟨flags, _⟩ _ => ?_
    exact (setAmount_inBounds hctx (Nat.le_of_eq hs.2.symm) _ _).bind fun _ _ => inBounds_ok trivial
  · refine (deserializeRecipient_inBounds h display).bind fun ⟨s, amount, shown⟩ hs => ?_
    refine (getNextBit_inBounds hs.1).bind fun ⟨allBalance, _⟩ _ => ?_
    exact (setAmount_inBounds hctx (Nat.le_of_eq hs.2.symm) _ _).bind fun _ _ => inBounds_ok trivial
  · refine (deserializeValue_inBounds h _).bind fun ⟨s, id⟩ hs => ?_
    exact (setTransactionId_inBounds sdk hs.2 _).bind fun _ _ => inBounds_ok trivial
  · exact inBounds_thrown _

theorem deserializeWalletV3_inBounds (h : Sound slice) :
    InBounds (fun _ => True) (deserializeWalletV3 slice) := by
  unfold deserializeWalletV3
  refine (getNextInt_inBounds h 32).bind fun ⟨_, s1⟩ h1 => ?_
  apply (validate_inBounds _ _).bind
  intro _ _
  refine (getNextInt_inBounds h1 32).bind fun ⟨_, s2⟩ h2 => ?_
  refine (getNextInt_inBounds h2 32).bind fun ⟨_, s3⟩ h3 => ?_
  refine (getNextByte_inBounds h3).bind fun ⟨_, s4⟩ _ => ?_
  exact (validate_inBounds _ _).bind fun _ _ => inBounds_ok trivial

theorem deserializeContractHeader_inBounds (h : Sound slice) :
    Reads (deserializeContractHeader slice) := by
  unfold deserializeContractHeader
  refine (getNextBit_inBounds h).bind fun ⟨present, s1⟩ h1 => ?_
  have hkey : InBounds Sound
      (if present ≠ 0 then s1.moveBy (publicKeyLength * 8) else pure s1) := by
    split
    · exact moveBy_inBounds h1 _
    · exact inBounds_ok h1
  apply hkey.bind
  intro s2 h2
  refine (getNextInt_inBounds h2 64).bind fun ⟨_, s3⟩ h3 => ?_
  refine (getNextInt_inBounds h3 32).bind fun ⟨_, s4⟩ h4 => ?_
  exact getNextInt_inBounds h4 32

theorem cellAt_inBounds {parsed : BocContext} {cells : List RawCell} (hparsed : Parsed parsed cells)
    (index : Nat) : InBounds (fun cell => ∃ c rest, Holds cell c rest) (cellAt parsed index) := by
  unfold cellAt
  refine (validate_inBounds _ _).bind fun _ hcount => inBounds_ok ?_
  rw [hparsed.count] at hcount
  exact ⟨_, hparsed.holds index _ (List.getElem?_eq_getElem hcount)⟩

theorem fromCell_inBounds {cell : Cell} (h : ∃ c rest, Holds cell c rest) :
    InBounds Sound (SliceData.fromCell cell) := by
  obtain ⟨c, rest, hc⟩ := h
  exact Confined.of_ok hc.fromCell c.slice_sound

theorem getRefs_inBounds {cell : Cell} (h : ∃ c rest, Holds cell c rest) :
    InBounds (fun _ => True) cell.getRefs := by
  obtain ⟨c, rest, hc⟩ := h
  exact Confined.of_ok hc.getRefs trivial

section

variable {parsed : BocContext} {cells : List RawCell} (hparsed : Parsed parsed cells)
  (hctx : HeaderFits ctx)

include hparsed hctx

theorem decodeWalletV3_inBounds (h : Sound slice) :
    InBounds (fun _ => True) (decodeWalletV3 sdk locals parsed slice ctx) := by
  unfold decodeWalletV3
  refine (deserializeWalletV3_inBounds h).bind fun ⟨flags, _⟩ _ => ?_
  apply (cellAt_inBounds hparsed _).bind
  intro giftCell hgift
  apply (fromCell_inBounds hgift).bind
  intro giftSlice hslice
  refine (deserializeIntMessageHeader_inBounds hctx hslice flags _).bind fun ⟨s1, shown⟩ h1 => ?_
  refine (getNextBit_inBounds h1.1).bind fun ⟨_, s2⟩ h2 => ?_
  apply (validate_inBounds _ _).bind
  intro _ _
  refine (getRefs_inBounds hgift).bind fun ⟨_, count⟩ _ => ?_
  refine (getNextBit_inBounds h2).bind fun ⟨bodyBit, s3⟩ h3 => ?_
  refine inBounds_ite ?_ (inBounds_ok trivial)
  apply (cellAt_inBounds hparsed _).bind
  intro refCell href
  apply (fromCell_inBounds href).bind
  intro refSlice hrefSlice
  have hsource : SourceSound ⟨s3, some refSlice, false⟩ :=
    ⟨h3, fun _ heq => Option.some.inj heq ▸ hrefSlice⟩
  exact (deserializeTokenBody_inBounds hctx hsource _).bind fun _ _ => inBounds_ok trivial

theorem decodeGiftBody_inBounds {giftCell : Cell} (hgift : ∃ c rest, Holds giftCell c rest)
    (decoded : Decoded) :
    InBounds (fun _ => True) (decodeGiftBody sdk locals parsed giftCell ctx decoded) := by
  unfold decodeGiftBody
  refine (getRefs_inBounds hgift).bind fun ⟨_, count⟩ _ => ?_
  refine inBounds_ite ?_ (inBounds_ok trivial)
  apply (cellAt_inBounds hparsed _).bind
  intro bodyCell hbody
  apply (fromCell_inBounds hbody).bind
  intro bodySlice hslice
  apply inBounds_ite (inBounds_ok trivial)
  have hsource : SourceSound ⟨bodySlice, none, false⟩ := ⟨hslice, nofun⟩
  exact (deserializeTokenBody_inBounds hctx hsource _).bind fun _ _ => inBounds_ok trivial

theorem decodePrefixedContract_inBounds (h : Sound slice) (wc : UInt8) (address : List UInt8) :
    InBounds (fun _ => True) (decodePrefixedContract sdk locals parsed slice wc address ctx) := by
  unfold decodePrefixedContract
  refine (deserializeContractHeader_inBounds h).bind fun ⟨functionId, _⟩ _ => ?_
  apply (cellAt_inBounds hparsed _).bind
  intro giftCell hgift
  apply (fromCell_inBounds hgift).bind
  intro giftSlice hslice
  refine (deserializeMultisigParams_inBounds hctx hslice functionId wc address _).bind
    fun ⟨flow, s, shown⟩ _ => ?_
  exact decodeGiftBody_inBounds hparsed hctx hgift _

theorem decodeContract_inBounds {rootCell : Cell} (hroot : ∃ c rest, Holds rootCell c rest)
    (h : Sound slice) (wc : UInt8) (address : List UInt8) :
    InBounds (fun _ => True)
      (decodeContract sdk locals parsed rootCell slice wc address ctx) := by
  unfold decodeContract
  refine (deserializeContractHeader_inBounds h).bind fun ⟨functionId, rootSlice⟩ hrootSlice => ?_
  simp only
  generalize decide (ContractFunction.ofId functionId = some .confirmTransaction) = inSameCell
  apply (validate_inBounds _ _).bind
  intro _ hcount
  have hgift : ∃ c rest,
      Holds (if inSameCell = true then rootCell else parsed.cells giftCellIndex) c rest := by
    cases inSameCell with
    | true => exact hroot
    | false =>
      have hlt := hcount.resolve_left Bool.false_ne_true
      rw [hparsed.count] at hlt
      exact ⟨_, hparsed.holds giftCellIndex _ (List.getElem?_eq_getElem hlt)⟩
  have hslice : InBounds Sound (if inSameCell = true then pure rootSlice else
      SliceData.fromCell (if inSameCell = true then rootCell else parsed.cells giftCellIndex)) :=
    inBounds_ite (inBounds_ok hrootSlice) (fromCell_inBounds hgift)
  apply hslice.bind
  intro giftSlice hgiftSlice
  refine (deserializeMultisigParams_inBounds hctx hgiftSlice functionId wc address _).bind
    fun _ _ => ?_
  exact decodeGiftBody_inBounds hparsed hctx hgift _

end

/-- The decoders of every wallet family. -/
theorem decodeFor_inBounds {request : SigningRequest} {parsed : BocContext} {cells : List RawCell}
    (hparsed : Parsed parsed cells) (hctx : HeaderFits request.ctx) (hslice : Sound slice)
    (hroot : ∃ c rest, Holds (parsed.cells rootCellIndex) c rest) (family : WalletFamily) :
    InBounds (fun _ => True) (decodeFor sdk locals request parsed slice family) := by
  cases family with
  | walletV3 => exact decodeWalletV3_inBounds hparsed hctx hslice
  | contract => exact decodeContract_inBounds hparsed hctx hroot hslice _ _
  | prefixedContract => exact decodePrefixedContract_inBounds hparsed hctx hslice _ _

end

end EverscaleLedger.Properties
