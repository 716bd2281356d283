import EverscaleLedger.Properties.Coverage
import EverscaleLedger.Properties.InBounds
import EverscaleLedger.Properties.Views

/-! Parsing and hashing of untrusted bytes: each cell is read within its own
descriptors, data and references only. -/
namespace EverscaleLedger.Properties

open Library Source Slice

/-! Hashing. -/

section

variable {pointer rest buffer : List UInt8} {i child : Nat} {bc : BocContext}

theorem hashDepths_inBounds (refs : List UInt8) (hpointer : pointer.drop child = refs ++ rest) :
    InBounds (fun result => SameCells bc result.1 ∧ ∀ r ∈ refs, r.toNat < maxContractCellsCount)
      (hashDepths pointer i refs.length child bc buffer) := by
  induction refs generalizing child bc buffer with
  | nil => exact inBounds_ok ⟨SameCells.refl bc, nofun⟩
  | cons r refs ih =>
    obtain ⟨hload, hnext⟩ := load_of_drop hpointer
    rw [List.length_cons, hashDepths, hload, ok_bind]
    apply (validate_inBounds _ _).bind
    intro _ hr
    refine (ih hnext).mono fun result hresult => ⟨?_, ?_⟩
    · have hsame := hresult.1
      exact ⟨hsame.cells, hsame.cellsCount, hsame.publicKeyCellData, hsame.publicKeyCellIndex⟩
    · rw [List.forall_mem_cons]
      exact ⟨hr, hresult.2⟩

theorem hashHashes_inBounds (refs : List UInt8) (hpointer : pointer.drop child = refs ++ rest)
    (hbound : ∀ r ∈ refs, r.toNat < maxContractCellsCount) :
    InBounds (fun _ => True) (hashHashes pointer bc refs.length child buffer) := by
  induction refs generalizing child buffer with
  | nil => exact inBounds_ok trivial
  | cons r refs ih =>
    obtain ⟨hload, hnext⟩ := load_of_drop hpointer
    rw [List.forall_mem_cons] at hbound
    rw [List.length_cons, hashHashes, hload, ok_bind, BocContext.slot_eq_ok.mpr ⟨hbound.1, rfl⟩,
      ok_bind]
    exact ih hnext hbound.2

end

/-- What hashing needs of a cell to stay inside its objects. -/
structure HashFits (bc : BocContext) (i : Nat) (c : RawCell) (rest : List UInt8) : Prop where
  index : i < maxContractCellsCount
  pruned : c.Pruned → prunedBranchDataSize ≤ (c.data ++ (c.refs ++ rest)).length
  publicKey : bc.publicKeyCellIndex ≠ 0 ∧ i = bc.publicKeyCellIndex →
    c.data.length ≤ bc.publicKeyCellData.length

section

variable {sdk : Sdk} {cell : Cell} {c : RawCell} {rest : List UInt8} {i : Nat} {bc : BocContext}

theorem calcCellHash_inBounds (h : Holds cell c rest) (hfits : HashFits bc i c rest) :
    InBounds (SameCells bc) (calcCellHash sdk cell i bc) := by
  unfold calcCellHash
  rw [BocContext.slot_eq_ok.mpr ⟨hfits.index, rfl⟩, ok_bind, h.getD1, ok_bind]
  split
  next hp =>
    have hsize := hfits.pruned hp
    rw [prunedBranchDataSize] at hsize
    rw [h.getData, ok_bind]
    apply (loadMany_inBounds (by rw [List.length_drop, hashSize]; omega)).bind
    intro hash _
    apply (load_inBounds (by rw [hashSize]; omega)).bind
    intro depth _
    exact inBounds_ok ⟨rfl, rfl, rfl, rfl⟩
  next hp =>
    rw [h.getD2, ok_bind, h.getDataSize, ok_bind]
    have hdata := (loadCellData_eq_ok h).mpr ⟨hfits.publicKey, rfl⟩
    rw [hdata, ok_bind, h.getRefs, ok_bind]
    apply (validate_inBounds _ _).bind
    intro _ _
    apply (hashDepths_inBounds c.refs rfl).bind
    intro _ hhashed
    apply (hashHashes_inBounds c.refs rfl hhashed.2).bind
    intro _ _
    exact inBounds_ok (hhashed.1.trans ⟨rfl, rfl, rfl, rfl⟩)

theorem HashFits.congr {result : BocContext} (h : HashFits bc i c rest)
    (hsame : SameCells bc result) : HashFits result i c rest :=
  ⟨h.index, h.pruned, by
    rw [hsame.publicKeyCellIndex, hsame.publicKeyCellData]
    exact h.publicKey⟩

theorem calcCellHashes_inBounds {count : Nat}
    (h : ∀ i < count, ∃ c rest, Holds (bc.cells i) c rest ∧ HashFits bc i c rest) :
    InBounds (SameCells bc) (calcCellHashes sdk count bc) := by
  induction count generalizing bc with
  | zero => exact inBounds_ok (SameCells.refl bc)
  | succ count ih =>
    obtain ⟨c, rest, hc, hfits⟩ := h count (Nat.lt_succ_self count)
    rw [calcCellHashes]
    apply (calcCellHash_inBounds hc hfits).bind
    intro next hsame
    refine (ih fun i hi => ?_).mono fun result hresult => hsame.trans hresult
    obtain ⟨c, rest, hc, hfits⟩ := h i (Nat.lt_succ_of_lt hi)
    rw [hsame.cells]
    exact ⟨c, rest, hc, hfits.congr hsame⟩

end

/-- `hash_buffer` has room for every representation. -/
theorem RawCell.length_representation_le (c : RawCell) (bc : BocContext) (i : Nat)
    (hrefs : c.refs.length ≤ maxReferencesCount) : (c.representation bc i).length ≤ 266 := by
  have hdata := c.length_data_le
  have hhashed : (c.hashedData bc i).length ≤ c.data.length := by
    unfold RawCell.hashedData
    split
    · exact List.length_take_le _ _
    · exact Nat.le_refl _
  have hdepths : (c.depthBytes bc).length = 2 * c.refs.length := by
    simp [RawCell.depthBytes, Nat.mul_comm]
  have hhashes : (c.hashBytes bc).length = 32 * c.refs.length := by
    simp [RawCell.hashBytes, Nat.mul_comm]
  unfold maxReferencesCount at hrefs
  unfold RawCell.representation
  rw [List.length_append, List.length_append, List.length_append, hdepths, hhashes]
  change 2 + _ + _ + _ ≤ 266
  omega

/-! Parsing. -/

section

variable {src : ByteStream}

theorem readData_inBounds (count : Nat) :
    InBounds (fun result => result.1.length = count) (src.readData count) := by
  unfold ByteStream.readData
  split
  next h =>
    apply inBounds_ok
    rw [List.length_take, length_getCursor]
    omega
  next => exact inBounds_thrown _

theorem readByte_inBounds : InBounds (fun _ => True) src.readByte := by
  unfold ByteStream.readByte
  refine (readData_inBounds 1).bind fun ⟨bytes, next⟩ hbytes => ?_
  exact (load_inBounds (by rw [hbytes]; decide)).bind fun _ _ => inBounds_ok trivial

theorem readUint_inBounds (bytes : Nat) : InBounds (fun _ => True) (src.readUint bytes) := by
  unfold ByteStream.readUint
  split
  · exact inBounds_ok trivial
  · exact inBounds_thrown _

end

section

variable {bytes : List UInt8}

theorem getD1_inBounds : InBounds (fun _ => True) (Cell.init bytes bytes.length).getD1 :=
  (validate_inBounds _ _).bind fun _ hlength => load_inBounds hlength

theorem getDataSize_inBounds :
    InBounds (fun size => (Cell.init bytes bytes.length).getDataSize = .ok size)
      (Cell.init bytes bytes.length).getDataSize := by
  have hd2 : InBounds (fun _ => True) (Cell.init bytes bytes.length).getD2 :=
    (validate_inBounds _ _).bind fun _ hlength => load_inBounds hlength
  have hsize : InBounds (fun _ => True) (Cell.init bytes bytes.length).getDataSize :=
    hd2.bind fun _ _ => inBounds_ok trivial
  exact Confined.self hsize.1

theorem checkRefs_inBounds {cell : Cell} {refs : List UInt8} {dataSize index announced : Nat}
    (hlength : refs.length = cell.cellLength - (cellDataOffset + dataSize)) (count child : Nat) :
    InBounds (fun _ => True) (cell.checkRefs refs dataSize index announced count child) := by
  induction count generalizing child with
  | zero => exact inBounds_ok trivial
  | succ count ih =>
    rw [Cell.checkRefs]
    apply (validate_inBounds _ _).bind
    intro _ hin
    apply (load_inBounds (by omega)).bind
    intro ref _
    exact (validate_inBounds _ _).bind fun _ _ => ih (child + 1)

/-- The check of a cell at the start of any bytes. -/
theorem deserialize_inBounds (index announced : Nat) :
    InBounds (fun _ => True) ((Cell.init bytes bytes.length).deserialize index announced) := by
  unfold Cell.deserialize
  apply getD1_inBounds.bind
  intro d1 _
  apply (validate_inBounds _ _).bind
  intro _ _
  apply (validate_inBounds _ _).bind
  intro _ _
  apply (validate_inBounds _ _).bind
  intro _ _
  apply (validate_inBounds _ _).bind
  intro _ _
  apply getDataSize_inBounds.bind
  intro dataSize hsize
  apply (validate_inBounds _ _).bind
  intro _ _
  have hrefs : InBounds (fun result : List UInt8 × Nat =>
      result.1 = bytes.drop (cellDataOffset + dataSize)) (Cell.init bytes bytes.length).getRefs := by
    unfold Cell.getRefs
    rw [hsize]
    exact getD1_inBounds.bind fun _ _ => inBounds_ok rfl
  refine hrefs.bind fun ⟨refs, count⟩ heq => ?_
  refine (checkRefs_inBounds ?_ count 0).bind fun _ _ => inBounds_ok trivial
  rw [show refs = _ from heq, List.length_drop]
  rfl

end

theorem deserializeCells_inBounds {announced count i : Nat} {src : ByteStream} {bc : BocContext} :
    InBounds (fun _ => True) (deserializeCells announced count i src bc) := by
  induction count generalizing i src bc with
  | zero => exact inBounds_ok trivial
  | succ count ih =>
    rw [deserializeCells]
    apply (validate_inBounds _ _).bind
    intro _ _
    rw [← length_getCursor src]
    apply (deserialize_inBounds i announced).bind
    intro size _
    exact (readData_inBounds size).bind fun _ _ => inBounds_ite (inBounds_ok trivial) ih

theorem deserializeCellsTree_inBounds (src : ByteStream) (bc : BocContext) :
    InBounds (fun _ => True) (deserializeCellsTree src bc) := by
  unfold deserializeCellsTree
  refine readByte_inBounds.bind fun ⟨firstByte, s1⟩ _ => ?_
  apply (validate_inBounds _ _).bind
  intro _ _
  apply (validate_inBounds _ _).bind
  intro _ _
  refine readByte_inBounds.bind fun ⟨offsetSize, s2⟩ _ => (validate_inBounds _ _).bind fun _ _ => ?_
  refine (readUint_inBounds _).bind fun ⟨cellsCount, s3⟩ _ => ?_
  refine (readUint_inBounds _).bind fun ⟨rootsCount, s4⟩ _ => (validate_inBounds _ _).bind fun _ _ => ?_
  refine (readUint_inBounds _).bind fun ⟨_, s5⟩ _ => ?_
  refine (readData_inBounds _).bind fun ⟨_, s6⟩ _ => ?_
  exact (readData_inBounds _).bind fun ⟨_, s7⟩ _ => deserializeCells_inBounds

/-! Cells cut off behind their own bytes. -/

/-- The descriptors, data and references that the first bytes announce, as far as
they are there. -/
def ownBytes : List UInt8 → List UInt8
  | d1 :: d2 :: rest => d1 :: d2 :: rest.take (dataSizeOf d2 + refsCountOf d1)
  | short => short

def cutCell (cell : Cell) : Cell := { cell with cellBegin := cell.cellBegin.map ownBytes }

def cutContext (bc : BocContext) : BocContext := { bc with cells := fun i => cutCell (bc.cells i) }

theorem Holds.cut {cell : Cell} {c : RawCell} {rest : List UInt8} (h : Holds cell c rest) :
    Holds (cutCell cell) c [] := by
  refine ⟨?_, h.2⟩
  unfold cutCell
  rw [h.1, Option.map_some]
  have htake : (c.data ++ (c.refs ++ rest)).take (dataSizeOf c.d2 + refsCountOf c.d1) =
      c.data ++ c.refs := by
    rw [← c.data_length, ← c.refs_length, ← List.length_append, ← List.append_assoc, List.take_left]
  simp [RawCell.bytes, ownBytes, htake]

theorem Parsed.cut {bc : BocContext} {cells : List RawCell} (h : Parsed bc cells) :
    Parsed (cutContext bc) cells where
  count := h.count
  holds i c hc := by
    obtain ⟨rest, hrest⟩ := h.holds i c hc
    exact ⟨[], hrest.cut⟩

theorem checkRefs_congr {a b : Cell} (hlength : a.cellLength = b.cellLength) {refs refs' : List UInt8}
    {dataSize index announced : Nat} (count child : Nat)
    (h : ∀ k < count, refs[child + k]? = refs'[child + k]?) :
    a.checkRefs refs dataSize index announced count child =
      b.checkRefs refs' dataSize index announced count child := by
  induction count generalizing child with
  | zero => rfl
  | succ count ih =>
    have hload : load refs child = load refs' child := by
      unfold load readAt
      rw [show refs[child]? = refs'[child]? from h 0 (Nat.succ_pos _)]
    rw [Cell.checkRefs, Cell.checkRefs, hlength, hload]
    apply bind_congr
    intro _
    apply bind_congr
    intro ref
    apply bind_congr
    intro _
    apply ih (child + 1)
    intro k hk
    rw [Nat.add_right_comm, Nat.add_assoc]
    exact h (k + 1) (Nat.succ_lt_succ hk)

theorem init_accessors (d1 d2 : UInt8) (rest : List UInt8) {length : Nat} (h : 1 < length) :
    (Cell.init (d1 :: d2 :: rest) length).getD1 = .ok d1 ∧
      (Cell.init (d1 :: d2 :: rest) length).getDataSize = .ok (dataSizeOf d2) ∧
      (Cell.init (d1 :: d2 :: rest) length).getRefs =
        .ok (rest.drop (dataSizeOf d2), refsCountOf d1) := by
  have hd1 : (Cell.init (d1 :: d2 :: rest) length).getD1 = .ok d1 := by
    unfold Cell.getD1
    rw [validate_of_true (show (Cell.init _ length).cellLength > 0 by exact Nat.lt_of_succ_lt h)]
    rfl
  have hsize : (Cell.init (d1 :: d2 :: rest) length).getDataSize = .ok (dataSizeOf d2) := by
    unfold Cell.getDataSize Cell.getD2
    rw [validate_of_true (show (Cell.init _ length).cellLength > 1 by exact h)]
    rfl
  refine ⟨hd1, hsize, ?_⟩
  unfold Cell.getRefs
  rw [hd1, hsize, ok_bind, ok_bind]
  change Except.ok (List.drop (2 + dataSizeOf d2) (d1 :: d2 :: rest), _) = _
  rw [Nat.add_comm, List.drop_succ_cons, List.drop_succ_cons]

/-- The check of a cell depends on the bytes of that cell alone. -/
theorem deserialize_cut (bytes : List UInt8) (length index announced : Nat) :
    (cutCell (Cell.init bytes length)).deserialize index announced =
      (Cell.init bytes length).deserialize index announced := by
  rcases bytes with _ | ⟨d1, _ | ⟨d2, rest⟩⟩
  · rfl
  · rfl
  change (Cell.init (d1 :: d2 :: rest.take (dataSizeOf d2 + refsCountOf d1)) length).deserialize
    index announced = _
  by_cases hlength : 1 < length
  · obtain ⟨hd1, hsize, hrefs⟩ := init_accessors d1 d2 rest hlength
    obtain ⟨hd1', hsize', hrefs'⟩ :=
      init_accessors d1 d2 (rest.take (dataSizeOf d2 + refsCountOf d1)) hlength
    simp only [Cell.deserialize, hd1, hsize, hrefs, hd1', hsize', hrefs', ok_bind]
    refine bind_congr fun _ => bind_congr fun _ => bind_congr fun _ => bind_congr fun _ =>
      bind_congr fun _ => ?_
    have hsame := @checkRefs_congr
      (Cell.init (d1 :: d2 :: rest.take (dataSizeOf d2 + refsCountOf d1)) length)
      (Cell.init (d1 :: d2 :: rest) length) rfl
      ((rest.take (dataSizeOf d2 + refsCountOf d1)).drop (dataSizeOf d2)) (rest.drop (dataSizeOf d2))
      (dataSizeOf d2) index announced (refsCountOf d1) 0 fun k hk => by
        rw [Nat.zero_add, List.drop_take, Nat.add_sub_cancel_left, List.getElem?_take_of_lt hk]
    rw [hsame]
  · have hshort : ∀ tail, (Cell.init (d1 :: d2 :: tail) length).getDataSize =
        .error (.thrown .invalidCell) := by
      intro tail
      unfold Cell.getDataSize Cell.getD2
      have hnot : ¬ (Cell.init (d1 :: d2 :: tail) length).cellLength > 1 := hlength
      rw [validate, require, if_neg hnot]
      rfl
    unfold Cell.deserialize
    rw [hshort, hshort]
    refine bind_congr fun _ => bind_congr fun _ => bind_congr fun _ => bind_congr fun _ =>
      bind_congr fun _ => rfl

/-! Hashing depends on the own bytes of the cells alone. -/

theorem digestCells_cut (sdk : Sdk) (cells : List RawCell) (low n : Nat) (bc : BocContext) :
    digestCells sdk cells low n (cutContext bc) = cutContext (digestCells sdk cells low n bc) := by
  have hcell : ∀ (bc : BocContext) (i : Nat) (c : RawCell),
      digestCell sdk (cutContext bc) i c = cutContext (digestCell sdk bc i c) := by
    intro bc i c
    unfold digestCell
    split <;> rfl
  induction n generalizing bc with
  | zero => rfl
  | succ i ih =>
    unfold digestCells
    split
    · rfl
    split
    · rw [hcell, ih]
    · exact ih bc

theorem calcCellHashes_cut {sdk : Sdk} {parsed result : BocContext} {cells : List RawCell}
    (hparsed : Parsed parsed cells) (hforward : Forward cells)
    (hbound : cells.length ≤ maxContractCellsCount)
    (h : calcCellHashes sdk parsed.cellsCount parsed = .ok result) :
    calcCellHashes sdk parsed.cellsCount (cutContext parsed) = .ok (cutContext result) := by
  have hcut := hparsed.cut
  rw [hparsed.count] at h ⊢
  rw [calcCellHashes_eq_ok hforward (Nat.zero_le _) (fun i c _ => hparsed.holds i c) (Nat.le_refl _)
    hbound] at h
  rw [calcCellHashes_eq_ok hforward (Nat.zero_le _) (fun i c _ => hcut.holds i c) (Nat.le_refl _)
    hbound, digestCells_cut]
  refine ⟨h.1, ?_⟩
  have hresult := h.2
  rw [calcCellHashes, pure_eq_ok] at hresult
  rw [calcCellHashes, hresult]
  rfl

/-- A stored cell pointer points into the stream. -/
theorem storeCells_pointer {i k : Nat} {stream : List UInt8} {cells : List RawCell} (bc : BocContext)
    (hk : k < cells.length) :
    ∃ tail, tail <:+ stream ∧
      (storeCells i stream cells bc).cells (i + k) = Cell.init tail tail.length := by
  induction cells generalizing i k stream bc with
  | nil => exact absurd hk (Nat.not_lt_zero k)
  | cons c cells ih =>
    rw [storeCells]
    cases k with
    | zero =>
      refine ⟨stream, List.suffix_refl _, ?_⟩
      rw [storeCells_before _ _ _ (show i + 0 < i + 1 from Nat.lt_succ_self i)]
      exact Function.update_self ..
    | succ k =>
      rw [List.length_cons] at hk
      obtain ⟨tail, htail, hcell⟩ := @ih (i + 1) k (stream.drop c.bytes.length)
        { bc.setCell i (Cell.init stream stream.length) with cellsCount := bc.cellsCount + 1 }
        (Nat.lt_of_succ_lt_succ hk)
      refine ⟨tail, htail.trans (List.drop_suffix _ _), ?_⟩
      rw [← hcell]
      congr 1
      omega

/-! Untrusted bytes, from parsing to hashing. -/

/-- What `prepare_to_sign` does between parsing and hashing. -/
def decodeReceived (sdk : Sdk) (locals : Locals) (request : SigningRequest) (parsed : BocContext)
    (family : WalletFamily) : Outcome Decoded := do
  validate (parsed.cellsCount > rootCellIndex) .invalidMessage
  let rootSlice ← SliceData.fromCell (parsed.cells rootCellIndex)
  decodeFor sdk locals request parsed rootSlice family

section

variable {sdk : Sdk} {locals : Locals} {request : SigningRequest} {parsed : BocContext}
  {cells : List RawCell}

theorem decodeReceived_cut (hparsed : Parsed parsed cells) (family : WalletFamily) :
    decodeReceived sdk locals request (cutContext parsed) family =
      decodeReceived sdk locals request parsed family := by
  by_cases hcount : parsed.cellsCount > rootCellIndex
  · have hlt := hcount
    rw [hparsed.count] at hlt
    have hget := List.getElem?_eq_getElem hlt
    obtain ⟨rest, hroot⟩ := hparsed.holds rootCellIndex _ hget
    have hcut : Holds ((cutContext parsed).cells rootCellIndex) cells[rootCellIndex] [] := hroot.cut
    unfold decodeReceived
    rw [hroot.fromCell, hcut.fromCell, ok_bind,
      decodeFor_congr hparsed.cut hparsed (fun _ _ => rfl) sdk locals request hcut hroot rfl family]
    rfl
  · have hcut : ¬ (cutContext parsed).cellsCount > rootCellIndex := hcount
    unfold decodeReceived validate require
    rw [if_neg hcount, if_neg hcut]
    rfl

theorem decodeReceived_inBounds (hparsed : Parsed parsed cells) (hctx : HeaderFits request.ctx)
    (family : WalletFamily) :
    InBounds (fun _ => True) (decodeReceived sdk locals request parsed family) := by
  unfold decodeReceived
  apply (validate_inBounds _ _).bind
  intro _ hcount
  rw [hparsed.count] at hcount
  have hroot := hparsed.holds rootCellIndex _ (List.getElem?_eq_getElem hcount)
  refine (fromCell_inBounds ⟨_, hroot⟩).bind fun rootSlice hslice => ?_
  exact decodeFor_inBounds hparsed hctx hslice ⟨_, hroot⟩ family

end

/-- Decoding and hashing of what was parsed touch the own bytes of the stored cells
only. A fault of `set_amount` in its scratch or in the ticker is not one of them. -/
structure ReadsOwnBytes (sdk : Sdk) (locals : Locals) (request : SigningRequest) (src : ByteStream)
    (parsed : BocContext) : Prop where
  count : parsed.cellsCount ≤ maxContractCellsCount
  cell : ∀ i < parsed.cellsCount, ∃ c rest, Holds (parsed.cells i) c rest ∧
    c.bytes ++ rest <:+ src.data ∧ ∀ tables, (c.representation tables i).length ≤ 266
  decode_cut : ∀ family, decodeReceived sdk locals request (cutContext parsed) family =
    decodeReceived sdk locals request parsed family
  decode : ∀ family, decodeReceived sdk locals request parsed family = .error .fault →
    37 < request.ctx.decimals ∨ 0 ∉ request.ctx.ticker
  hash_cut : ∀ result, calcCellHashes sdk parsed.cellsCount parsed = .ok result →
    calcCellHashes sdk parsed.cellsCount (cutContext parsed) = .ok (cutContext result)
  hash : calcCellHashes sdk parsed.cellsCount parsed ≠ .error .fault ∧
    calcCellHashes sdk parsed.cellsCount (cutContext parsed) ≠ .error .fault

end EverscaleLedger.Properties
