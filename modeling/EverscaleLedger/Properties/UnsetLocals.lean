import EverscaleLedger.Library.Lockstep
import EverscaleLedger.Properties.DeviceBuffers
import EverscaleLedger.Properties.SignedAccount

/-! The local buffers of `prepare_to_sign` that nothing is written to at first. What they
hold may come to the screen as an address, and nowhere else. -/
namespace EverscaleLedger.Properties

open Library Source Slice

/-! The decoders. -/

/-- Two displays with the same strings, the address apart. -/
structure SameButAddress (a b : Display) : Prop where
  amountStr : b.amountStr = a.amountStr
  transactionIdStr : b.transactionIdStr = a.transactionIdStr

theorem SameButAddress.refl (display : Display) : SameButAddress display display := ⟨rfl, rfl⟩

theorem SameButAddress.setDstAddress {a b : Display} (h : SameButAddress a b) (sdk : Sdk)
    (wc wc' : UInt8) (address address' : List UInt8) :
    SameButAddress (setDstAddress sdk wc address a) (setDstAddress sdk wc' address' b) :=
  ⟨h.amountStr, h.transactionIdStr⟩

section

variable {a b : Display} (h : SameButAddress a b)

include h

theorem setAmount_alike (amount : List UInt8) (amountLength flags decimals : Nat)
    (ticker : List UInt8) : Alike SameButAddress
      (setAmount amount amountLength flags decimals ticker a)
      (setAmount amount amountLength flags decimals ticker b) := by
  unfold setAmount
  apply Alike.ite
  · apply Alike.step
    intro text _
    apply Alike.step
    intro tickerLength _
    apply Alike.step
    intro _ _
    apply Alike.step
    intro field _
    exact .ok ⟨rfl, h.transactionIdStr⟩
  · apply Alike.ite
    · apply Alike.step
      intro _ _
      apply Alike.step
      intro field _
      exact .ok ⟨rfl, h.transactionIdStr⟩
    · apply Alike.ite
      · apply Alike.step
        intro _ _
        apply Alike.step
        intro field _
        exact .ok ⟨rfl, h.transactionIdStr⟩
      · exact .error _

theorem setTransactionId_alike (sdk : Sdk) (id : List UInt8) : Alike SameButAddress
    (setTransactionId sdk id a) (setTransactionId sdk id b) := by
  unfold setTransactionId
  apply Alike.step
  intro field _
  exact .ok ⟨h.amountStr, rfl⟩

end

/-- Whatever the address was before, the same bits are consumed. -/
theorem deserializeAddress_alike (slice : SliceData) (wc : UInt8) (address address' : List UInt8) :
    Alike (fun r s => s.1 = r.1) (deserializeAddress slice wc address)
      (deserializeAddress slice wc address') := by
  unfold deserializeAddress
  apply Alike.step
  rintro ⟨addrType, slice⟩ -
  apply Alike.step
  intro _ _
  apply Alike.ite
  · exact Alike.refl fun _ => rfl
  · exact .ok rfl

section

variable (sdk : Sdk) (first second : Locals) (ctx : SignTransactionContext) {a b : Display}
  (h : SameButAddress a b)

include h

theorem deserializeIntMessageHeader_alike (slice : SliceData) (flags : Nat) :
    Alike (fun r s => s.1 = r.1 ∧ SameButAddress r.2 s.2)
      (deserializeIntMessageHeader sdk first slice flags ctx a)
      (deserializeIntMessageHeader sdk second slice flags ctx b) := by
  unfold deserializeIntMessageHeader
  apply Alike.step
  rintro ⟨intMsg, slice⟩ -
  apply Alike.step
  intro _ _
  apply Alike.step
  rintro ⟨_, slice⟩ -
  apply Alike.step
  rintro ⟨_, slice⟩ -
  apply Alike.step
  rintro ⟨_, slice⟩ -
  apply (deserializeAddress_alike slice 0 _ _).bind
  rintro ⟨slice, _, _⟩ ⟨slice', _, _⟩ hslice
  obtain rfl : slice = slice' := hslice.symm
  apply (deserializeAddress_alike slice 0 _ _).bind
  rintro ⟨slice, wc, address⟩ ⟨slice', wc', address'⟩ hslice
  obtain rfl : slice = slice' := hslice.symm
  apply Alike.step
  rintro ⟨amountBytes, slice⟩ -
  apply Alike.step
  intro _ _
  apply Alike.step
  rintro ⟨slice, amount⟩ -
  apply (setAmount_alike (h.setDstAddress sdk wc wc' address address') _ _ _ _ _).bind
  intro display display' hdisplay
  apply Alike.step
  rintro ⟨_, slice⟩ -
  apply Alike.step
  rintro ⟨_, slice⟩ -
  apply Alike.step
  intro _ _
  apply Alike.step
  rintro ⟨_, slice⟩ -
  apply Alike.step
  intro _ _
  apply Alike.step
  rintro ⟨_, slice⟩ -
  apply Alike.step
  rintro ⟨_, slice⟩ -
  exact .ok ⟨rfl, hdisplay⟩

theorem deserializeTokenAmount_alike (source : TokenSource) :
    Alike (fun r s => s.1 = r.1 ∧ SameButAddress r.2 s.2) (deserializeTokenAmount source ctx a)
      (deserializeTokenAmount source ctx b) := by
  unfold deserializeTokenAmount
  apply Alike.step
  intro source _
  apply Alike.step
  rintro ⟨slice, amount⟩ -
  apply (setAmount_alike h _ _ _ _ _).bind
  intro display display' hdisplay
  exact .ok ⟨rfl, hdisplay⟩

/-- The results of two runs of a decoder that sets a flow. -/
abbrev FlowAlike {α : Type _} (r s : Flow × α × Display) : Prop :=
  s.1 = r.1 ∧ s.2.1 = r.2.1 ∧ SameButAddress r.2.2 s.2.2

theorem deserializeTokenFunction_alike (source : TokenSource) (functionId : Nat) :
    Alike FlowAlike (deserializeTokenFunction sdk first source functionId ctx a)
      (deserializeTokenFunction sdk second source functionId ctx b) := by
  unfold deserializeTokenFunction
  cases TokenFunction.ofId functionId with
  | none => exact .ok ⟨rfl, rfl, h⟩
  | some function =>
    cases function with
    | transfer =>
      apply (deserializeTokenAmount_alike ctx h source).bind
      rintro ⟨source, display⟩ ⟨_, display'⟩ ⟨rfl, hdisplay⟩
      apply Alike.step
      intro source _
      apply (deserializeAddress_alike source.current 0 _ _).bind
      rintro ⟨slice, wc, address⟩ ⟨slice', wc', address'⟩ hslice
      obtain rfl : slice = slice' := hslice.symm
      exact .ok ⟨rfl, rfl, hdisplay.setDstAddress ..⟩
    | burn =>
      apply (deserializeTokenAmount_alike ctx h source).bind
      rintro ⟨source, display⟩ ⟨_, display'⟩ ⟨rfl, hdisplay⟩
      exact .ok ⟨rfl, rfl, hdisplay⟩

theorem deserializeTokenBody_alike (source : TokenSource) :
    Alike FlowAlike (deserializeTokenBody sdk first source ctx a)
      (deserializeTokenBody sdk second source ctx b) := by
  unfold deserializeTokenBody
  apply Alike.ite
  · exact .ok ⟨rfl, rfl, h⟩
  · apply Alike.step
    rintro ⟨functionId, slice⟩ -
    exact deserializeTokenFunction_alike sdk first second ctx h _ functionId

theorem deserializeRecipient_alike (slice : SliceData) :
    Alike (fun r s => s.1 = r.1 ∧ s.2.1 = r.2.1 ∧ SameButAddress r.2.2 s.2.2)
      (deserializeRecipient sdk first slice a) (deserializeRecipient sdk second slice b) := by
  unfold deserializeRecipient
  apply (deserializeAddress_alike slice 0 _ _).bind
  rintro ⟨slice, wc, address⟩ ⟨slice', wc', address'⟩ hslice
  obtain rfl : slice = slice' := hslice.symm
  apply Alike.step
  rintro ⟨slice, amount⟩ -
  apply Alike.step
  rintro ⟨_, slice⟩ -
  exact .ok ⟨rfl, rfl, h.setDstAddress ..⟩

theorem deserializeMultisigParams_alike (slice : SliceData) (functionId : Nat) (wc : UInt8)
    (address : List UInt8) :
    Alike FlowAlike (deserializeMultisigParams sdk first slice functionId wc address ctx a)
      (deserializeMultisigParams sdk second slice functionId wc address ctx b) := by
  unfold deserializeMultisigParams
  cases ContractFunction.ofId functionId with
  | none => exact .error _
  | some function =>
    cases function with
    | deployTransaction => exact .ok ⟨rfl, rfl, h.setDstAddress ..⟩
    | sendTransaction =>
      apply (deserializeRecipient_alike sdk first second h slice).bind
      rintro ⟨slice, amount, display⟩ ⟨_, _, display'⟩ ⟨rfl, rfl, hdisplay⟩
      apply Alike.step
      rintro ⟨flags, slice⟩ -
      apply (setAmount_alike hdisplay _ _ _ _ _).bind
      intro display display' hdisplay
      exact .ok ⟨rfl, rfl, hdisplay⟩
    | submitTransaction =>
      apply (deserializeRecipient_alike sdk first second h slice).bind
      rintro ⟨slice, amount, display⟩ ⟨_, _, display'⟩ ⟨rfl, rfl, hdisplay⟩
      apply Alike.step
      rintro ⟨allBalance, slice⟩ -
      apply (setAmount_alike hdisplay _ _ _ _ _).bind
      intro display display' hdisplay
      exact .ok ⟨rfl, rfl, hdisplay⟩
    | confirmTransaction =>
      apply Alike.step
      rintro ⟨slice, id⟩ -
      apply (setTransactionId_alike h sdk id).bind
      intro display display' hdisplay
      exact .ok ⟨rfl, rfl, hdisplay⟩

end

/-- Two decoded messages, the displayed address apart. -/
structure SameDecoded (a b : Decoded) : Prop where
  flow : b.flow = a.flow
  display : SameButAddress a.display b.display
  giftIndex : b.giftIndex = a.giftIndex
  giftSlice : b.giftSlice = a.giftSlice
  bodySlice : b.bodySlice = a.bodySlice

section

variable (sdk : Sdk) (first second : Locals) (parsed : BocContext) (ctx : SignTransactionContext)

theorem decodeWalletV3_alike (rootSlice : SliceData) :
    Alike SameDecoded (decodeWalletV3 sdk first parsed rootSlice ctx)
      (decodeWalletV3 sdk second parsed rootSlice ctx) := by
  unfold decodeWalletV3
  apply Alike.step
  rintro ⟨flags, _⟩ -
  apply Alike.step
  intro giftCell _
  apply Alike.step
  intro giftSlice _
  apply (deserializeIntMessageHeader_alike sdk first second ctx (.refl _) giftSlice flags).bind
  rintro ⟨giftSlice, display⟩ ⟨_, display'⟩ ⟨rfl, hdisplay⟩
  apply Alike.step
  rintro ⟨stateInitBit, giftSlice⟩ -
  apply Alike.step
  intro _ _
  apply Alike.step
  rintro ⟨_, giftRefsCount⟩ -
  apply Alike.step
  rintro ⟨bodyBit, giftSlice⟩ -
  apply Alike.ite
  · apply Alike.step
    intro refCell _
    apply Alike.step
    intro refSlice _
    apply (deserializeTokenBody_alike sdk first second ctx hdisplay _).bind
    rintro ⟨flow, source, display⟩ ⟨_, _, display'⟩ ⟨rfl, rfl, hdisplay⟩
    exact .ok ⟨rfl, hdisplay, rfl, rfl, rfl⟩
  · exact .ok ⟨rfl, hdisplay, rfl, rfl, rfl⟩

theorem decodeGiftBody_alike (giftCell : Cell) {a b : Decoded} (h : SameDecoded a b) :
    Alike SameDecoded (decodeGiftBody sdk first parsed giftCell ctx a)
      (decodeGiftBody sdk second parsed giftCell ctx b) := by
  unfold decodeGiftBody
  apply Alike.step
  rintro ⟨_, giftRefsCount⟩ -
  apply Alike.ite
  · apply Alike.step
    intro bodyCell _
    apply Alike.step
    intro bodySlice _
    apply Alike.ite
    · exact .ok ⟨h.flow, h.display, h.giftIndex, h.giftSlice, rfl⟩
    · apply (deserializeTokenBody_alike sdk first second ctx h.display _).bind
      rintro ⟨flow, source, display⟩ ⟨_, _, display'⟩ ⟨rfl, rfl, hdisplay⟩
      exact .ok ⟨rfl, hdisplay, h.giftIndex, h.giftSlice, rfl⟩
  · exact .ok h

theorem decodeContract_alike (rootCell : Cell) (rootSlice : SliceData) (wc : UInt8)
    (address : List UInt8) :
    Alike SameDecoded (decodeContract sdk first parsed rootCell rootSlice wc address ctx)
      (decodeContract sdk second parsed rootCell rootSlice wc address ctx) := by
  unfold decodeContract
  apply Alike.step
  rintro ⟨functionId, rootSlice⟩ -
  apply Alike.step
  intro _ _
  apply Alike.step
  intro giftSlice _
  apply (deserializeMultisigParams_alike sdk first second ctx (.refl _) giftSlice functionId wc
    address).bind
  rintro ⟨flow, giftSlice, display⟩ ⟨_, _, display'⟩ ⟨rfl, rfl, hdisplay⟩
  exact decodeGiftBody_alike sdk first second parsed ctx _ ⟨rfl, hdisplay, rfl, rfl, rfl⟩

theorem decodePrefixedContract_alike (rootSlice : SliceData) (wc : UInt8) (address : List UInt8) :
    Alike SameDecoded (decodePrefixedContract sdk first parsed rootSlice wc address ctx)
      (decodePrefixedContract sdk second parsed rootSlice wc address ctx) := by
  unfold decodePrefixedContract
  apply Alike.step
  rintro ⟨functionId, _⟩ -
  apply Alike.step
  intro giftCell _
  apply Alike.step
  intro giftSlice _
  apply (deserializeMultisigParams_alike sdk first second ctx (.refl _) giftSlice functionId wc
    address).bind
  rintro ⟨flow, giftSlice, display⟩ ⟨_, _, display'⟩ ⟨rfl, rfl, hdisplay⟩
  exact decodeGiftBody_alike sdk first second parsed ctx _ ⟨rfl, hdisplay, rfl, rfl, rfl⟩

end

/-! Hashing. -/

theorem hashDepths_append {refs : List UInt8} (rest : List UInt8) {i count child : Nat}
    {bc : BocContext} {buffer : List UInt8} (h : child + count ≤ refs.length) :
    hashDepths (refs ++ rest) i count child bc buffer = hashDepths refs i count child bc buffer := by
  induction count generalizing child bc buffer with
  | zero => rfl
  | succ count ih =>
    simp only [hashDepths]
    rw [load_append rest (by omega)]
    congr 1
    funext ref
    congr 1
    funext _
    exact ih (by omega)

theorem hashHashes_append {refs : List UInt8} (rest : List UInt8) {count child : Nat}
    {bc : BocContext} {buffer : List UInt8} (h : child + count ≤ refs.length) :
    hashHashes (refs ++ rest) bc count child buffer = hashHashes refs bc count child buffer := by
  induction count generalizing child buffer with
  | zero => rfl
  | succ count ih =>
    simp only [hashHashes]
    rw [load_append rest (by omega)]
    congr 1
    funext ref
    congr 1
    funext index
    exact ih (by omega)

/-- Hashing a cell reads nothing behind it. -/
theorem calcCellHash_pointer {sdk : Sdk} {cell : Cell} {c : RawCell} {rest : List UInt8} {i : Nat}
    {bc : BocContext} (h : Holds cell c rest)
    (hpruned : c.Pruned → prunedBranchDataSize ≤ c.data.length) :
    calcCellHash sdk cell i bc = calcCellHash sdk (cellPointer c) i bc := by
  have hself := holds_cellPointer c
  unfold calcCellHash
  congr 1
  funext index
  rw [h.getD1, hself.getD1, ok_bind, ok_bind]
  split
  next hp =>
    have hsize := hpruned hp
    rw [prunedBranchDataSize] at hsize
    rw [h.getData, hself.getData, ok_bind, ok_bind]
    have hdrop : ∀ tail, loadMany ((c.data ++ tail).drop 2) hashSize =
        .ok ((c.data.drop 2).take hashSize) := by
      intro tail
      rw [loadMany_eq_ok, List.drop_append_of_le_length (by omega), List.take_append_of_le_length]
      · refine ⟨?_, rfl⟩
        rw [List.length_append, List.length_drop, hashSize]
        omega
      · rw [List.length_drop, hashSize]
        omega
    rw [hdrop, hdrop, ok_bind, ok_bind, load_append _ (by rw [hashSize]; omega),
      load_append _ (by rw [hashSize]; omega)]
  next hp =>
    have hdata : loadCellData cell index c.data.length bc =
        loadCellData (cellPointer c) index c.data.length bc := by
      unfold loadCellData
      split
      · rfl
      · rw [h.loadData, hself.loadData]
    rw [h.getD2, hself.getD2, ok_bind, ok_bind, h.getDataSize, hself.getDataSize, ok_bind, ok_bind,
      hdata, h.getRefs, hself.getRefs]
    congr 1
    funext data
    rw [ok_bind, ok_bind]
    dsimp only
    congr 1
    funext _
    rw [hashDepths_append rest (by omega), hashDepths_append [] (by omega)]
    congr 1
    funext hashed
    obtain ⟨next, buffer⟩ := hashed
    rw [hashHashes_append rest (by omega), hashHashes_append [] (by omega)]

/-- The context with other pointers to its cells. -/
def pointingTo (cells : Nat → Cell) (bc : BocContext) : BocContext := { bc with cells }

theorem hashDepths_pointingTo (cells : Nat → Cell) (refs : List UInt8) (i count child : Nat)
    (bc : BocContext) (buffer : List UInt8) :
    Alike (fun r s => s = (pointingTo cells r.1, r.2) ∧ r.1.cells = bc.cells)
      (hashDepths refs i count child bc buffer)
      (hashDepths refs i count child (pointingTo cells bc) buffer) := by
  induction count generalizing child bc buffer with
  | zero => exact .ok ⟨rfl, rfl⟩
  | succ count ih =>
    simp only [hashDepths]
    apply Alike.step
    intro ref _
    apply Alike.step
    intro _ _
    exact ih (child + 1) (bc.setDepth i (raiseDepth (bc.cellDepth i) (bc.cellDepth ref.toNat))) _

theorem hashHashes_pointingTo (cells : Nat → Cell) (refs : List UInt8) (bc : BocContext)
    (count child : Nat) (buffer : List UInt8) :
    hashHashes refs (pointingTo cells bc) count child buffer =
      hashHashes refs bc count child buffer := by
  induction count generalizing child buffer with
  | zero => rfl
  | succ count ih =>
    simp only [hashHashes, ih]
    rfl

/-- The tables that hashing leaves do not depend on the pointers to other cells. -/
theorem calcCellHash_pointingTo (sdk : Sdk) (cells : Nat → Cell) (cell : Cell) (i : Nat)
    (bc : BocContext) :
    Alike (fun r s => s = pointingTo cells r ∧ r.cells = bc.cells) (calcCellHash sdk cell i bc)
      (calcCellHash sdk cell i (pointingTo cells bc)) := by
  unfold calcCellHash
  apply Alike.step
  intro index _
  apply Alike.step
  intro d1 _
  apply Alike.ite
  · apply Alike.step
    intro data _
    apply Alike.step
    intro hash _
    apply Alike.step
    intro depth _
    exact .ok ⟨rfl, rfl⟩
  · apply Alike.step
    intro d2 _
    apply Alike.step
    intro size _
    apply Alike.step
    intro data _
    apply Alike.step
    rintro ⟨refs, refsCount⟩ -
    apply Alike.step
    intro _ _
    apply (hashDepths_pointingTo cells refs index refsCount 0 bc _).bind
    rintro ⟨next, buffer⟩ _ ⟨rfl, hcells⟩
    dsimp only
    rw [hashHashes_pointingTo]
    apply Alike.step
    intro buffer _
    exact .ok ⟨rfl, hcells⟩

/-- Cells of one kind are hashed alike, wherever they lie. -/
theorem calcCellHashes_pointingTo {sdk : Sdk} {cells : Nat → Cell} {count : Nat} {bc : BocContext}
    (h : ∀ i < count, ∃ c rest tail, Holds (bc.cells i) c rest ∧ Holds (cells i) c tail ∧
      (c.Pruned → prunedBranchDataSize ≤ c.data.length)) :
    Alike (fun r s => s = pointingTo cells r) (calcCellHashes sdk count bc)
      (calcCellHashes sdk count (pointingTo cells bc)) := by
  induction count generalizing bc with
  | zero => exact .ok rfl
  | succ count ih =>
    obtain ⟨c, rest, tail, hcell, hother, hpruned⟩ := h count (Nat.lt_succ_self count)
    simp only [calcCellHashes]
    have hsame : calcCellHash sdk (cells count) count (pointingTo cells bc) =
        calcCellHash sdk (bc.cells count) count (pointingTo cells bc) :=
      (calcCellHash_pointer hother hpruned).trans (calcCellHash_pointer hcell hpruned).symm
    change Alike _ _ (calcCellHash sdk (cells count) count (pointingTo cells bc) >>= _)
    rw [hsame]
    apply (calcCellHash_pointingTo sdk cells (bc.cells count) count bc).bind
    rintro next _ ⟨rfl, hcells⟩
    apply ih
    intro i hi
    rw [hcells]
    exact h i (Nat.lt_succ_of_lt hi)

/-! The prefixed root. -/

/-- A function id is never zero, so a root that calls a function has bits behind the
times of its header. -/
theorem length_bits_of_function {root : RawCell} {function : ContractFunction}
    (h : functionOf root = some function) : 97 ≤ root.bits.length := by
  by_contra hshort
  unfold functionOf at h
  split at h
  next functionId next hheader =>
    simp only [deserializeContractHeader, bind_eq_ok] at hheader
    obtain ⟨⟨present, s1⟩, h1, s2, h2, ⟨_, s3⟩, h3, ⟨_, s4⟩, h4, h5⟩ := hheader
    dsimp only at h2 h3 h4 h5
    obtain ⟨rfl, -⟩ := getNextBit_ok h1
    obtain ⟨position, hposition, rfl⟩ : ∃ position, 1 ≤ position ∧ s2 = movedTo root.slice position := by
      split at h2
      · exact ⟨_, Nat.le_add_right 1 _, (moveBy_ok h2).1⟩
      · exact ⟨_, Nat.le_refl 1, (pure_eq_ok.mp h2).symm⟩
    obtain ⟨rfl, -⟩ := getNextInt_ok h3
    obtain ⟨rfl, -⟩ := getNextInt_ok h4
    have hend := (getNextInt_ok h5).2.2
    have hnumber := getNextInt_eq (((root.slice_sound.moved position).moved _).moved _)
      (show 32 ≤ 64 by decide) hend
    obtain ⟨hid, -⟩ := Prod.mk.inj (Except.ok.inj (h5.symm.trans hnumber))
    have hzeros : ∀ bit ∈ bitsAt root.slice (position + 64 + 32) 32, bit = false := by
      intro bit hbit
      obtain ⟨k, hk, hget⟩ := List.getElem_of_mem hbit
      have hwindow := List.getElem?_eq_getElem hk
      rw [hget] at hwindow
      unfold bitsAt Bits.window at hwindow
      obtain ⟨hdrop, -⟩ := List.getElem?_eq_some_iff.mp hwindow
      rw [List.getElem?_take_of_lt (by rw [List.length_take] at hdrop; omega), List.getElem?_drop]
        at hwindow
      have hi := (List.getElem?_eq_some_iff.mp hwindow).1
      change (Bits.ofBytes root.data)[_]? = _ at hwindow
      rw [root.getElem?_data hi (by omega) (by omega), Option.some.injEq] at hwindow
      rw [← hwindow, decide_eq_false_iff_not]
      omega
    have hzero : functionId = 0 := by
      rw [hid]
      change Bits.number (bitsAt root.slice (position + 64 + 32) 32) = 0
      rw [List.eq_replicate_of_mem hzeros, Bits.number_replicate_false]
    rw [hzero] at h
    cases h
  next => cases h

/-- Whatever `cell_buffer` held, the root becomes the same cell. -/
theorem prependAddressToCell_alike {first second : Locals} {request : SigningRequest} {cell : Cell}
    {root : RawCell} {rest : List UInt8} (hroot : Holds cell root rest)
    (hrefs : root.refs.length ≤ maxReferencesCount)
    (haddress : request.prependAddress.length = addressLength) {function : ContractFunction}
    (hfunction : functionOf root = some function) :
    Alike (fun a b => ∃ c rest tail, Holds a c rest ∧ Holds b c tail ∧
        (c.Pruned → prunedBranchDataSize ≤ c.data.length))
      (prependAddressToCell first.cellBuffer.toList cell request.wc request.prependAddress)
      (prependAddressToCell second.cellBuffer.toList cell request.wc request.prependAddress) := by
  have hbits := length_bits_of_function hfunction
  have hle := root.length_bits_le
  have hne : root.data ≠ [] := by
    intro hnil
    rw [hnil, List.length_nil] at hle
    omega
  have hlocals : ∀ locals : Locals, locals.cellBuffer.toList.length = cellBufferSize :=
    fun _ => Vector.length_toList
  by_cases hlong : 94 < root.data.length ∨
      128 < (root.bits.length + 267 + 7) / 8 + root.refs.length
  · rw [prependAddressToCell_fault hroot (hlocals first) haddress hne root.bitLen_eq hrefs hlong,
      prependAddressToCell_fault hroot (hlocals second) haddress hne root.bitLen_eq hrefs hlong]
    exact .error _
  · rw [not_or, Nat.not_lt, Nat.not_lt] at hlong
    obtain ⟨a, c, rest', ha, hholds, -, hd1, hcrefs, hd2, hlength, hdata⟩ :=
      prependAddressToCell_root request.wc hroot (hlocals first) haddress hne root.bitLen_eq hrefs
        hlong.1 hlong.2
    obtain ⟨b, c', tail, hb, hholds', -, hd1', hcrefs', hd2', -, hdata'⟩ :=
      prependAddressToCell_root request.wc hroot (hlocals second) haddress hne root.bitLen_eq hrefs
        hlong.1 hlong.2
    have hsame : c' = c := by
      rw [RawCell.mk.injEq]
      exact ⟨hd1'.trans hd1.symm, hd2'.trans hd2.symm, Bits.ofBytes_inj (hdata'.trans hdata.symm),
        hcrefs'.trans hcrefs.symm⟩
    rw [ha, hb]
    refine .ok ⟨c, rest', tail, hholds, hsame ▸ hholds', fun _ => ?_⟩
    rw [hlength, prunedBranchDataSize]
    omega

/-! The whole call. -/

/-- Two results of `prepare_to_sign`, the displayed address apart. -/
structure SamePrepared (a b : Prepared) : Prop where
  decoded : SameDecoded a.decoded b.decoded
  toSign : b.toSign = a.toSign
  bc : b.bc = a.bc

theorem preparePayloadHash_pointingTo {sdk : Sdk} {ctx : SignTransactionContext}
    {cells : Nat → Cell} {bc : BocContext}
    (h : ∀ i < bc.cellsCount, ∃ c rest tail, Holds (bc.cells i) c rest ∧ Holds (cells i) c tail ∧
      (c.Pruned → prunedBranchDataSize ≤ c.data.length)) :
    Alike (fun r s => s.2 = r.2) (preparePayloadHash sdk ctx bc)
      (preparePayloadHash sdk ctx (pointingTo cells bc)) := by
  unfold preparePayloadHash
  apply (calcCellHashes_pointingTo h).bind
  rintro hashed _ rfl
  apply Alike.ite
  · exact .ok rfl
  · exact .ok rfl

/-- What the local buffers held decides neither about the outcome of `prepare_to_sign`
nor about any of its results, the displayed address apart. -/
theorem SigningRequest.prepare_alike (sdk : Sdk) (first second : Locals) (request : SigningRequest)
    (haddress : request.prependAddress.length = addressLength) (bc : BocContext)
    (src : ByteStream) :
    Alike SamePrepared (request.prepare sdk first bc src) (request.prepare sdk second bc src) := by
  unfold SigningRequest.prepare prepareToSign
  apply Alike.step
  rintro ⟨next, parsed⟩ hparse
  obtain ⟨reception, rfl⟩ := exists_reception hparse
  have hparsed := reception.parsed_cells
  apply Alike.step
  intro _ hcount
  rw [validate_eq_ok, hparsed.count] at hcount
  have hget := List.getElem?_eq_getElem hcount
  obtain ⟨rest, hholds⟩ := hparsed.holds rootCellIndex _ hget
  apply Alike.step
  intro rootSlice hslice
  rw [hholds.fromCell, Except.ok.injEq] at hslice
  subst hslice
  split
  next =>
    apply (decodeWalletV3_alike sdk first second _ _ _).bind
    intro a b hdecoded
    apply Alike.step
    rintro ⟨hashed, toSign⟩ -
    exact .ok ⟨hdecoded, rfl, rfl⟩
  next =>
    apply (decodeContract_alike sdk first second _ _ _ _ _ _).bind
    intro a b hdecoded
    apply Alike.step
    rintro ⟨hashed, toSign⟩ -
    exact .ok ⟨hdecoded, rfl, rfl⟩
  next =>
    apply (decodePrefixedContract_alike sdk first second _ _ _ _ _).with_ok.bind
    rintro a b ⟨hdecoded, hdecode, -⟩
    obtain ⟨gift, -, -, hcontract⟩ := decodePrefixedContract_ok hparsed hdecode
    obtain ⟨function, _, hfunction, -⟩ := hcontract.function
    have hrefs := reception.forward.refs_le _ (List.getElem_mem hcount)
    apply (prependAddressToCell_alike hholds hrefs haddress hfunction).bind
    rintro root root' ⟨c, rest', tail, hroot, hroot', hpruned⟩
    have hcells : reception.parsed.setCell rootCellIndex root' =
        pointingTo (Function.update reception.parsed.cells rootCellIndex root')
          (reception.parsed.setCell rootCellIndex root) := rfl
    rw [hcells]
    apply (preparePayloadHash_pointingTo fun i hi => ?_).bind
    · rintro ⟨hashed, toSign⟩ ⟨hashed', _⟩ rfl
      exact .ok ⟨hdecoded, rfl, rfl⟩
    · change ∃ c rest tail, Holds (Function.update reception.parsed.cells rootCellIndex root i) c rest ∧
        Holds (Function.update reception.parsed.cells rootCellIndex root' i) c tail ∧ _
      by_cases hzero : i = rootCellIndex
      · rw [hzero, Function.update_self, Function.update_self]
        exact ⟨c, rest', tail, hroot, hroot', hpruned⟩
      · have hlt : i < reception.cells.length := hparsed.count ▸ hi
        obtain ⟨other, hother⟩ := hparsed.holds i _ (List.getElem?_eq_getElem hlt)
        rw [Function.update_of_ne hzero, Function.update_of_ne hzero]
        refine ⟨_, other, other, hother, hother, fun hp => ?_⟩
        exact reception.forward.pruned_size _ (List.getElem_mem hlt) hp
  next => exact .error _

/-! The device. -/

/-- What is known of two screens whose text may differ. -/
abbrev SameScreen (a b : Option Screen) : Prop :=
  Option.Rel (fun s t : Screen => t.callback = s.callback ∧ t.computed = s.computed) a b

theorem SameScreen.refl (screen : Option Screen) : SameScreen screen screen := by
  cases screen with
  | none => exact .none
  | some screen => exact .some ⟨rfl, rfl⟩

abbrev SameUnion (a b : DataContext) : Prop := AgreeOff DataContext.signTrContext.addressStr a b

/-- Two devices that differ in the address string and in what the screen shows of it.
The account of a message lies over the start of the string, but is written after it. -/
structure SameDevice (a b : Device) : Prop where
  bocContext : b.bocContext = a.bocContext
  dataContext : SameUnion a.dataContext b.dataContext
  screen : SameScreen a.screen b.screen
  message : a.screen.map Screen.callback = some .validateMessage →
    b.dataContext.read DataContext.signContext.accountNumber =
      a.dataContext.read DataContext.signContext.accountNumber

theorem SameDevice.refl (device : Device) : SameDevice device device :=
  ⟨rfl, .refl _ _, .refl _, fun _ => rfl⟩

section

variable {dc dc' : DataContext} (h : SameUnion dc dc')

include h

theorem requestOf_same : requestOf dc' = requestOf dc := by
  have hbyte : ∀ field : Field, field.offset + field.size ≤
      DataContext.signTrContext.addressStr.offset ∨ DataContext.signTrContext.addressStr.offset +
        DataContext.signTrContext.addressStr.size ≤ field.offset → 0 < field.size →
      dc' field.offset = dc field.offset := by
    intro field hfield hsize
    exact h _ (by omega)
  unfold requestOf SignTransactionContext.ofData
  rw [hbyte DataContext.signTrContext.signWithChainId (by decide) (by decide),
    hbyte DataContext.signTrContext.currentWalletType (by decide) (by decide),
    hbyte DataContext.signTrContext.decimals (by decide) (by decide),
    hbyte DataContext.signTrContext.wc (by decide) (by decide),
    h.read DataContext.signTrContext.chainId (by decide),
    h.read DataContext.signTrContext.ticker (by decide),
    h.read DataContext.signTrContext.address (by decide),
    h.read DataContext.signTrContext.prependAddress (by decide)]

theorem transactionMessage_same : transactionMessage dc' = transactionMessage dc := by
  have hbyte : dc' DataContext.signTrContext.signWithChainId.offset =
      dc DataContext.signTrContext.signWithChainId.offset := h _ (by decide)
  unfold transactionMessage
  rw [h.read DataContext.signTrContext.toSign (by decide), hbyte]

/-- No callback reads the address string, but for the one that reads an account there. -/
theorem pending_same {callback : Callback} (hmessage : callback = .validateMessage →
      dc'.read DataContext.signContext.accountNumber = dc.read DataContext.signContext.accountNumber) :
    pending callback dc' = pending callback dc := by
  cases callback with
  | validatePubkey => exact congrArg Released.publicKey (h.read _ (by decide))
  | validateAddress => exact congrArg Released.address (h.read _ (by decide))
  | validateMessage =>
    exact congrArg₂ Released.messageSignature (congrArg littleEndianValue (hmessage rfl))
      (h.read _ (by decide))
  | validateTransaction =>
    exact congrArg₂ Released.transactionSignature (h.readUint _ (by decide))
      (transactionMessage_same h)

theorem writeIfSome_same (field : Field) (bytes : Option (List UInt8)) :
    SameUnion (writeIfSome dc field bytes) (writeIfSome dc' field bytes) := by
  cases bytes with
  | none => exact h
  | some bytes => exact h.write _ bytes

theorem storePrepared_same {a b : Prepared} (hprepared : SamePrepared a b)
    (ha : StringsFit a.decoded.display) (hb : StringsFit b.decoded.display) :
    SameUnion (storePrepared dc a) (storePrepared dc' b) := by
  have haddress : SameUnion
      (writeIfSome dc DataContext.signTrContext.addressStr a.decoded.display.addressStr)
      (writeIfSome dc' DataContext.signTrContext.addressStr b.decoded.display.addressStr) := by
    have hnothing : ([] : List UInt8).length ≤ DataContext.signTrContext.addressStr.size :=
      Nat.zero_le _
    have hnone : ∀ memory : DataContext,
        memory.write DataContext.signTrContext.addressStr.offset [] = memory := by
      intro memory
      funext address
      exact if_neg (by simp)
    cases hfirst : a.decoded.display.addressStr with
    | none =>
      cases hsecond : b.decoded.display.addressStr with
      | none => exact h
      | some bytes =>
        have hwritten := h.write_field hnothing (hb.addressStr bytes hsecond)
        rwa [hnone] at hwritten
    | some bytes =>
      cases hsecond : b.decoded.display.addressStr with
      | none =>
        have hwritten := h.write_field (ha.addressStr bytes hfirst) hnothing
        rwa [hnone] at hwritten
      | some bytes' => exact h.write_field (ha.addressStr bytes hfirst) (hb.addressStr bytes' hsecond)
  simp only [storePrepared]
  rw [hprepared.toSign, hprepared.decoded.display.amountStr,
    hprepared.decoded.display.transactionIdStr]
  exact (writeIfSome_same (writeIfSome_same haddress _ _) _ _).write _ _

theorem appendPayload_same (payload : List UInt8) :
    Alike SameUnion (appendPayload payload dc) (appendPayload payload dc') := by
  simp only [appendPayload]
  rw [h.readUint DataContext.signTrContext.dataOffset (by decide)]
  apply Alike.ite
  · apply Alike.step
    intro _ _
    exact .ok ((h.write _ _).write _ _)
  · exact .ok h

/-- The union has no part in an address. -/
theorem getAddress_same (sdk : Sdk) (accountNumber : Nat) (walletType : UInt8) (bc : BocContext) :
    Alike (fun r s => s.1 = r.1 ∧ s.2.1 = r.2.1 ∧ SameUnion r.2.2 s.2.2)
      (getAddress sdk accountNumber walletType bc dc)
      (getAddress sdk accountNumber walletType bc dc') := by
  by_cases hplain : ∀ type, WalletType.ofByte walletType = some type → multisigWallet type = none
  · obtain ⟨address, hsame⟩ := getAddress_plain sdk accountNumber walletType hplain
    rw [hsame, hsame]
    apply Alike.step
    intro address _
    exact .ok ⟨rfl, rfl, h⟩
  · simp only [not_forall] at hplain
    obtain ⟨type, htype, hwallet⟩ := hplain
    obtain ⟨wallet, hwallet⟩ := Option.ne_none_iff_exists'.mp hwallet
    rw [getAddress_multisig sdk accountNumber htype hwallet,
      getAddress_multisig sdk accountNumber htype hwallet, computeMultisigAddress_eq,
      computeMultisigAddress_eq]
    apply Alike.step
    intro loaded _
    cases getPublicKey sdk accountNumber with
    | none => exact .error _
    | some publicKey =>
      apply Alike.step
      intro hashed _
      exact .ok ⟨rfl, rfl, h.write _ _⟩

end

/-! The handlers. -/

/-- The results of two handlers. -/
abbrev SameHandled (r s : Device × Option Reply) : Prop := SameDevice r.1 s.1 ∧ s.2 = r.2

section

variable {sdk : Sdk} {a b : Device} (h : SameDevice a b)

include h

theorem SameDevice.resetWith {first second : DataContext} {field : Field} (hsame : SameUnion first second)
    (hapart : field.Apart DataContext.signTrContext.addressStr.offset
      DataContext.signTrContext.addressStr.size) (bc bc' : BocContext) (length : UInt8) :
    SameHandled
      (Device.resetAppContext ⟨bc, first, a.screen⟩, some ⟨length :: first.read field, success⟩)
      (Device.resetAppContext ⟨bc', second, b.screen⟩, some ⟨length :: second.read field, success⟩) :=
  ⟨⟨rfl, .refl _ _, h.screen, fun _ => rfl⟩, by rw [hsame.read field hapart]⟩

theorem handleGetPublicKey_same (cdata : List UInt8) (display : Bool) :
    Alike SameHandled (handleGetPublicKey sdk cdata display a)
      (handleGetPublicKey sdk cdata display b) := by
  unfold handleGetPublicKey
  apply Alike.step
  intro accountNumber _
  cases getPublicKey sdk accountNumber with
  | none => exact .ok ⟨h, rfl⟩
  | some publicKey =>
    have hwritten := h.dataContext.write DataContext.pkContext.publicKey.offset publicKey.toList
    apply Alike.ite
    · exact .ok ⟨⟨h.bocContext, hwritten.write _ _, .some ⟨rfl, rfl⟩, nofun⟩, rfl⟩
    · exact .ok (h.resetWith hwritten (by decide) _ _ _)

theorem handleGetAddress_same (cdata : List UInt8) (display : Bool) :
    Alike SameHandled (handleGetAddress sdk cdata display a)
      (handleGetAddress sdk cdata display b) := by
  unfold handleGetAddress
  apply Alike.step
  intro accountNumber _
  apply Alike.step
  intro walletType _
  rw [h.bocContext]
  apply (getAddress_same h.dataContext sdk accountNumber walletType a.bocContext).bind
  rintro ⟨address, bc, dc⟩ ⟨address', bc', dc'⟩ ⟨haddress, hbc, hsame⟩
  obtain rfl : address = address' := haddress.symm
  obtain rfl : bc = bc' := hbc.symm
  have hwritten := hsame.write DataContext.addrContext.address.offset address.toList
  apply Alike.ite
  · exact .ok ⟨⟨rfl, hwritten.write _ _, .some ⟨rfl, rfl⟩, nofun⟩, rfl⟩
  · exact .ok (h.resetWith hwritten (by decide) _ _ _)

theorem handleSign_same (cdata : List UInt8) :
    Alike SameHandled (handleSign sdk cdata a) (handleSign sdk cdata b) := by
  unfold handleSign
  apply Alike.step
  intro _ _
  apply Alike.step
  intro accountNumber _
  apply Alike.step
  intro _ _
  apply Alike.step
  intro message hmessage
  obtain ⟨hlength, htake⟩ := loadMany_eq_ok.mp hmessage
  have htoSign : (signMagic ++ message).length = 36 := by
    rw [List.length_append, ← htake, List.length_take_of_le hlength]
    decide
  have hread : ∀ dc : DataContext, (messageWritten sdk dc accountNumber (signMagic ++ message)).read
      DataContext.signContext.accountNumber = littleEndian 4 accountNumber := by
    intro dc
    unfold messageWritten writeShown
    rw [Memory.read_write_apart _ (Or.inl (by decide)),
      Memory.read_write_apart _ (Or.inr (by rw [htoSign]; decide)), Memory.writeUint,
      Memory.read_write_self _ (Memory.length_littleEndian ..)]
    rfl
  refine .ok ⟨⟨h.bocContext, ((h.dataContext.write _ _).write _ _).write _ _, .some ⟨rfl, rfl⟩,
    fun _ => ?_⟩, rfl⟩
  exact (hread b.dataContext).trans (hread a.dataContext).symm

theorem receiveChunk_same (cdata : List UInt8) (isFirstChunk : Bool) :
    Alike SameDevice (receiveChunk sdk cdata isFirstChunk a)
      (receiveChunk sdk cdata isFirstChunk b) := by
  cases isFirstChunk with
  | true =>
    have hfirst : ∀ device : Device, receiveChunk sdk cdata true device = (do
        let result ← readFirstChunk sdk cdata BocContext.zero Memory.zero
        let dc ← appendPayload (cdata.drop result.1) result.2.2
        pure ⟨result.2.1, dc, device.screen⟩) := fun _ => rfl
    rw [hfirst, hfirst]
    apply Alike.step
    rintro ⟨offset, bc, dc⟩ -
    apply Alike.step
    intro dc _
    exact .ok ⟨rfl, .refl _ _, h.screen, fun _ => rfl⟩
  | false =>
    have hnext : ∀ device : Device, receiveChunk sdk cdata false device = (do
        let dc ← appendPayload cdata device.dataContext
        pure { device with dataContext := dc }) := fun _ => rfl
    rw [hnext, hnext]
    apply (appendPayload_same h.dataContext cdata).with_ok.bind
    rintro dc dc' ⟨hsame, hdc, hdc'⟩
    refine .ok ⟨h.bocContext, hsame, h.screen, fun hmessage => ?_⟩
    change dc'.read _ = dc.read _
    rw [appendPayload_before hdc (by decide), appendPayload_before hdc' (by decide)]
    exact h.message hmessage

theorem prepareTransaction_same (first second : Locals) :
    Alike (fun r s => SamePrepared r s ∧ StringsFit r.decoded.display ∧ StringsFit s.decoded.display)
      (prepareTransaction sdk first a) (prepareTransaction sdk second b) := by
  have hprepare : Alike SamePrepared (prepareTransaction sdk first a)
      (prepareTransaction sdk second b) := by
    simp only [prepareTransaction]
    rw [h.dataContext.read DataContext.signTrContext.data (by decide),
      h.dataContext.readUint DataContext.signTrContext.dataOffset (by decide)]
    apply Alike.step
    intro data _
    apply Alike.step
    intro src _
    change Alike _ ((requestOf a.dataContext).prepare sdk first a.bocContext src)
      ((requestOf b.dataContext).prepare sdk second b.bocContext src)
    rw [requestOf_same h.dataContext, h.bocContext]
    exact SigningRequest.prepare_alike sdk first second _ (Memory.length_read ..) _ src
  apply hprepare.with_ok.mono
  rintro prepared prepared' ⟨hsame, hfirst, hsecond⟩
  exact ⟨hsame, (prepareTransaction_fits hfirst).1, (prepareTransaction_fits hsecond).1⟩

theorem finishTransaction_same (first second : Locals) :
    Alike SameHandled (finishTransaction sdk first a) (finishTransaction sdk second b) := by
  unfold finishTransaction
  apply (prepareTransaction_same h first second).bind
  rintro prepared prepared' ⟨hsame, hfit, hfit'⟩
  have hstored := storePrepared_same h.dataContext hsame hfit hfit'
  refine .ok ⟨⟨hsame.bc, hstored, .some ⟨rfl, ?_⟩, nofun⟩, rfl⟩
  change Released.transactionSignature _ prepared'.toSign = _
  rw [hstored.readUint DataContext.signTrContext.accountNumber (by decide), hsame.toSign]

theorem handle_same (first second : Locals) (request : Request) :
    Alike SameHandled (handle sdk first request a) (handle sdk second request b) := by
  cases request with
  | getAppConfiguration => exact .ok ⟨h, rfl⟩
  | refused error => exact .ok ⟨h, rfl⟩
  | getPublicKey cdata display => exact handleGetPublicKey_same h cdata display
  | getAddress cdata display => exact handleGetAddress_same h cdata display
  | sign cdata => exact handleSign_same h cdata
  | signTransaction cdata isFirstChunk more =>
    apply (receiveChunk_same h cdata isFirstChunk).bind
    intro held held' hheld
    cases more with
    | true => exact .ok ⟨hheld, rfl⟩
    | false => exact finishTransaction_same hheld first second

theorem cryptoSign_same (accountNumber : Nat) (message : List UInt8) (field : Field)
    {respond : Device → Device × Reply} (hrespond : ∀ device, (respond device).1 = device) :
    SameUnion (cryptoSign sdk accountNumber message field a respond).1.dataContext
        (cryptoSign sdk accountNumber message field b respond).1.dataContext ∧
      (cryptoSign sdk accountNumber message field a respond).1.bocContext = a.bocContext ∧
      (cryptoSign sdk accountNumber message field b respond).1.bocContext = b.bocContext := by
  unfold cryptoSign
  cases getPrivateKey sdk accountNumber with
  | none => exact ⟨h.dataContext, rfl, rfl⟩
  | some key =>
    dsimp only
    cases sdk.eddsaSign key message with
    | none => exact ⟨h.dataContext, rfl, rfl⟩
    | some signed =>
      simp only [hrespond]
      exact ⟨h.dataContext.write _ _, trivial, trivial⟩

/-- An approval gives out the same, and leaves no screen to answer. -/
theorem approve_same {callback : Callback} (hscreen : a.screen.map Screen.callback = some callback) :
    (approve sdk callback b).2 = (approve sdk callback a).2 ∧
      SameDevice { (approve sdk callback a).1 with screen := none }
        { (approve sdk callback b).1 with screen := none } := by
  have hpending : pending callback b.dataContext = pending callback a.dataContext :=
    pending_same h.dataContext fun hmessage => h.message (hmessage ▸ hscreen)
  refine ⟨by rw [approve_effect, approve_effect, hpending], ?_⟩
  have hsigned : ∀ (accountNumber : Nat) (message : List UInt8) (field : Field)
      (respond : Device → Device × Reply), (∀ device, (respond device).1 = device) →
      SameDevice { (cryptoSign sdk accountNumber message field a respond).1 with screen := none }
        { (cryptoSign sdk accountNumber message field b respond).1 with screen := none } := by
    intro accountNumber message field respond hrespond
    obtain ⟨hunion, hbc, hbc'⟩ := cryptoSign_same h accountNumber message field hrespond
    exact ⟨hbc'.trans (h.bocContext.trans hbc.symm), hunion, .none, nofun⟩
  cases callback with
  | validatePubkey => exact ⟨rfl, .refl _ _, .none, nofun⟩
  | validateAddress => exact ⟨rfl, .refl _ _, .none, nofun⟩
  | validateMessage =>
    obtain ⟨haccount, hmessage⟩ := Released.messageSignature.inj hpending
    simp only [approve]
    rw [haccount, hmessage]
    exact hsigned _ _ _ _ fun _ => rfl
  | validateTransaction =>
    obtain ⟨haccount, hmessage⟩ := Released.transactionSignature.inj hpending
    simp only [approve]
    rw [haccount, hmessage]
    exact hsigned _ _ _ _ fun _ => rfl

end

/-! Runs. -/

/-- The same command or the same answer, whatever the locals of the handler hold. -/
inductive SameEvent : Event → Event → Prop where
  | command (cmd : Command) (first second : Locals) :
      SameEvent (.command cmd first) (.command cmd second)
  | answer (choice : Bool) : SameEvent (.answer choice) (.answer choice)

theorem step_same (sdk : Sdk) {a b : Device} {event event' : Event} (h : SameDevice a b)
    (hevent : SameEvent event event') :
    Option.Rel (fun r s => SameDevice r.1 s.1 ∧ r.2 = s.2) (step sdk a event)
      (step sdk b event') := by
  cases hevent with
  | command cmd first second =>
    have hhandle := @handle_same sdk a b h first second cmd.request
    simp only [step]
    cases hfirst : handle sdk first cmd.request a with
    | ok result =>
      rw [hfirst] at hhandle
      cases hsecond : handle sdk second cmd.request b with
      | ok result' =>
        rw [hsecond] at hhandle
        cases hhandle with
        | ok hboth => exact .some ⟨hboth.1, by rw [hboth.2]⟩
      | error abort =>
        rw [hsecond] at hhandle
        cases hhandle
    | error abort =>
      rw [hfirst] at hhandle
      cases hsecond : handle sdk second cmd.request b with
      | ok result' =>
        rw [hsecond] at hhandle
        cases hhandle
      | error abort' =>
        rw [hsecond] at hhandle
        cases hhandle
        cases abort with
        | thrown error => exact .some ⟨.refl _, rfl⟩
        | fault => exact .none
  | answer choice =>
    have hscreen := h.screen
    simp only [step]
    cases hfirst : a.screen with
    | none =>
      cases hsecond : b.screen with
      | none => exact .none
      | some screen' =>
        rw [hfirst, hsecond] at hscreen
        cases hscreen
    | some screen =>
      cases hsecond : b.screen with
      | none =>
        rw [hfirst, hsecond] at hscreen
        cases hscreen
      | some screen' =>
        rw [hfirst, hsecond] at hscreen
        cases hscreen with
        | some hboth =>
          dsimp only
          cases choice with
          | false =>
            exact .some ⟨⟨h.bocContext, h.dataContext, .none, fun hmessage => by cases hmessage⟩, rfl⟩
          | true =>
            obtain ⟨heffect, hdevice⟩ := @approve_same sdk a b h screen.callback
              (by rw [hfirst, Option.map_some])
            rw [hboth.1]
            exact .some ⟨hdevice, heffect.symm⟩

/-- Local buffers that hold ones. -/
def onesLocals : Locals where
  srcAddr := Vector.replicate 32 1
  dstAddress := Vector.replicate 32 1
  tokenAddress := Vector.replicate 32 1
  cellBuffer := Vector.replicate cellBufferSize 1

end EverscaleLedger.Properties
