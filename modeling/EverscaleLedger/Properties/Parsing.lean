import EverscaleLedger.Properties.Cells
import EverscaleLedger.Source.Contract

/-! The parser of serialized cells against lists of cells: what it accepts is the
serialization of an admitted list, and every admitted list is accepted. -/
namespace EverscaleLedger.Properties

open Library Source

/-- The context after the cells of a stream were stored, from slot `i` on. -/
def storeCells : (i : Nat) → (stream : List UInt8) → List RawCell → BocContext → BocContext
  | _, _, [], bc => bc
  | i, stream, c :: cells, bc =>
      storeCells (i + 1) (stream.drop c.bytes.length) cells
        { bc.setCell i (Cell.init stream stream.length) with cellsCount := bc.cellsCount + 1 }

def serializeCells (cells : List RawCell) : List UInt8 := cells.flatMap RawCell.bytes

/-- All cells of a list are admitted at their positions, the first one at `i`. -/
def AdmittedFrom (i announced : Nat) (cells : List RawCell) : Prop :=
  ∀ k (c : RawCell), cells[k]? = some c → c.Admitted (i + k) announced

/-- The slots of a context hold a list of cells. -/
structure Parsed (bc : BocContext) (cells : List RawCell) : Prop where
  count : bc.cellsCount = cells.length
  holds : ∀ i c, cells[i]? = some c → ∃ rest, Holds (bc.cells i) c rest

section ByteStream

variable {src next : ByteStream}

theorem length_getCursor (src : ByteStream) : src.getCursor.length = src.getLength := by
  simp [ByteStream.getCursor, ByteStream.getLength, ByteStream.dataSize]

theorem readData_eq_ok {count : Nat} {bytes : List UInt8} :
    src.readData count = .ok (bytes, next) ↔
      count ≤ src.getCursor.length ∧ bytes = src.getCursor.take count ∧
        next.data = src.data ∧ next.offset = src.offset + count := by
  rw [length_getCursor]
  unfold ByteStream.readData
  split
  next h =>
    constructor
    · intro heq
      injection heq with heq
      injection heq with hbytes hnext
      subst hnext
      exact ⟨h, hbytes.symm, rfl, rfl⟩
    · rintro ⟨_, rfl, hdata, hoffset⟩
      cases next
      simp only at hdata hoffset
      subst hdata hoffset
      rfl
  next h => simp [h]

theorem getCursor_of_offset {count : Nat} (hdata : next.data = src.data)
    (hoffset : next.offset = src.offset + count) :
    next.getCursor = src.getCursor.drop count := by
  unfold ByteStream.getCursor
  rw [hdata, hoffset, List.drop_drop]

theorem offset_ge_iff : src.offset ≥ src.dataSize ↔ src.getCursor = [] := by
  simp [ByteStream.getCursor, ByteStream.dataSize]

end ByteStream

theorem storeCells_cellsCount (i : Nat) (stream : List UInt8) (cells : List RawCell)
    (bc : BocContext) :
    (storeCells i stream cells bc).cellsCount = bc.cellsCount + cells.length := by
  induction cells generalizing i stream bc with
  | nil => rfl
  | cons c cells ih =>
    rw [storeCells, ih, List.length_cons]
    change bc.cellsCount + 1 + cells.length = _
    omega

/-- Storing cells touches the cell slots and their count only. -/
theorem storeCells_eq (i : Nat) (stream : List UInt8) (cells : List RawCell)
    (bc : BocContext) :
    storeCells i stream cells bc =
      { bc with
        cells := (storeCells i stream cells bc).cells
        cellsCount := (storeCells i stream cells bc).cellsCount } := by
  induction cells generalizing i stream bc with
  | nil => rfl
  | cons c cells ih =>
    rw [storeCells, ih]
    rfl

theorem storeCells_before {i j : Nat} (stream : List UInt8) (cells : List RawCell)
    (bc : BocContext) (h : j < i) : (storeCells i stream cells bc).cells j = bc.cells j := by
  induction cells generalizing i stream bc with
  | nil => rfl
  | cons c cells ih =>
    rw [storeCells, ih _ _ (by omega)]
    exact Function.update_of_ne (by omega) _ _

theorem storeCells_holds (i : Nat) (cells : List RawCell) (tail : List UInt8)
    (bc : BocContext) (k : Nat) (c : RawCell) (h : cells[k]? = some c) :
    ∃ rest, Holds ((storeCells i (serializeCells cells ++ tail) cells bc).cells (i + k)) c rest := by
  induction cells generalizing i bc k with
  | nil => simp at h
  | cons first cells ih =>
    have hstream : serializeCells (first :: cells) ++ tail =
        first.bytes ++ (serializeCells cells ++ tail) := by
      simp [serializeCells]
    rw [storeCells, hstream, List.drop_left]
    cases k with
    | zero =>
      rw [List.getElem?_cons_zero, Option.some.injEq] at h
      rw [storeCells_before _ _ _ (by omega)]
      subst h
      refine ⟨serializeCells cells ++ tail, ?_, ?_⟩
      · simp [BocContext.setCell, Cell.init]
      · simp only [BocContext.setCell, Cell.init, Nat.add_zero, Function.update_self,
          List.length_append]
        have := first.two_le_length_bytes
        omega
    | succ k =>
      rw [← Nat.add_assoc, Nat.add_right_comm]
      exact ih (i + 1) _ k h

theorem parsed_storeCells (cells : List RawCell) (tail : List UInt8) (bc : BocContext)
    (h : bc.cellsCount = 0) : Parsed (storeCells 0 (serializeCells cells ++ tail) cells bc) cells where
  count := by rw [storeCells_cellsCount, h, Nat.zero_add]
  holds i c hc := by
    obtain ⟨rest, hrest⟩ := storeCells_holds 0 cells tail bc i c hc
    rw [Nat.zero_add] at hrest
    exact ⟨rest, hrest⟩

/-- What the cell loop accepts is the serialization of an admitted list, and it
has stored this list. -/
theorem deserializeCells_ok {announced count i : Nat} {src next : ByteStream}
    {bc result : BocContext}
    (h : deserializeCells announced count i src bc = .ok (next, result)) :
    ∃ cells : List RawCell,
      src.getCursor = serializeCells cells ++ next.getCursor ∧
      result = storeCells i src.getCursor cells bc ∧
      AdmittedFrom i announced cells ∧
      (∀ k < cells.length, i + k < maxContractCellsCount) ∧
      cells.length ≤ count ∧ (cells.length = count ∨ next.getCursor = []) ∧
      (0 < count → 0 < cells.length) := by
  induction count generalizing i src bc with
  | zero =>
    rw [deserializeCells, pure_eq_ok, Prod.mk.injEq] at h
    obtain ⟨rfl, rfl⟩ := h
    exact ⟨[], by simp [serializeCells], rfl, by simp [AdmittedFrom], by simp, Nat.le_refl _,
      Or.inl rfl, by omega⟩
  | succ count ih =>
    simp only [deserializeCells, bind_eq_ok, validate_eq_ok] at h
    obtain ⟨_, hi, size, hsize, ⟨bytes, middle⟩, hread, h⟩ := h
    rw [readData_eq_ok] at hread
    obtain ⟨hle, -, hdata, hoffset⟩ := hread
    obtain ⟨c, rest, hc⟩ := exists_rawCell hsize hle
    have hholds : Holds (Cell.init src.getCursor src.getLength) c rest := by
      refine ⟨congrArg some hc, ?_⟩
      have hlength := length_getCursor src
      rw [hc, List.length_append] at hlength
      have := c.two_le_length_bytes
      change 2 ≤ src.getLength
      omega
    obtain ⟨hadmitted, rfl⟩ := (hholds.deserialize_eq_ok
      (by rw [← hc]; exact (length_getCursor src).symm)).mp hsize
    have hmiddle : middle.getCursor = rest := by
      rw [getCursor_of_offset hdata hoffset, hc, List.drop_left]
    have hstore : ∀ cells : List RawCell,
        storeCells i src.getCursor (c :: cells) bc =
          storeCells (i + 1) middle.getCursor cells
            { bc.setCell i (Cell.init src.getCursor src.getLength) with
              cellsCount := bc.cellsCount + 1 } := by
      intro cells
      rw [storeCells, length_getCursor, hmiddle]
      congr 1
      rw [hc, List.drop_left]
    split at h
    next hend =>
      rw [pure_eq_ok, Prod.mk.injEq] at h
      obtain ⟨rfl, rfl⟩ := h
      refine ⟨[c], ?_, (hstore []).symm, ?_, ?_, by simp, Or.inr (offset_ge_iff.mp hend), by simp⟩
      · rw [hc, hmiddle]
        simp [serializeCells]
      · intro k d hd
        obtain ⟨rfl, rfl⟩ : k = 0 ∧ c = d := by cases k <;> simp_all
        exact hadmitted
      · intro k hk
        simp only [List.length_singleton] at hk
        omega
    next =>
      obtain ⟨cells, hcursor, hresult, hcells, hbound, hle, hend, -⟩ := ih h
      refine ⟨c :: cells, ?_, ?_, ?_, ?_, ?_, ?_, by simp⟩
      · rw [hc, ← hmiddle, hcursor]
        simp [serializeCells]
      · exact hresult.trans (hstore cells).symm
      · intro k d hd
        cases k with
        | zero =>
          rw [List.getElem?_cons_zero, Option.some.injEq] at hd
          exact hd ▸ hadmitted
        | succ k =>
          rw [← Nat.add_assoc, Nat.add_right_comm]
          exact hcells k d hd
      · intro k hk
        cases k with
        | zero => exact hi
        | succ k =>
          have := hbound k (by simpa using hk)
          omega
      · rw [List.length_cons]
        omega
      · exact hend.imp_left fun hcount => by rw [List.length_cons, hcount]

/-- The list fills the announced number, or the stream ends with its last cell. -/
def Complete (cells : List RawCell) (announced : Nat) (tail : List UInt8) : Prop :=
  cells.length = announced ∨ cells ≠ [] ∧ cells.length ≤ announced ∧ tail = []

/-- Every admitted list is accepted and stored. -/
theorem deserializeCells_serialize (announced : Nat) {count i : Nat} {src : ByteStream}
    (bc : BocContext) (cells : List RawCell) (tail : List UInt8)
    (hcursor : src.getCursor = serializeCells cells ++ tail)
    (hadmitted : AdmittedFrom i announced cells) (hcomplete : Complete cells count tail)
    (hbound : i + cells.length ≤ maxContractCellsCount) :
    ∃ next, deserializeCells announced count i src bc =
      .ok (next, storeCells i src.getCursor cells bc) ∧ next.getCursor = tail := by
  induction cells generalizing count i src bc with
  | nil =>
    obtain rfl | ⟨hne, -⟩ := hcomplete
    · exact ⟨src, rfl, hcursor⟩
    · exact absurd rfl hne
  | cons c cells ih =>
    rw [List.length_cons] at hbound
    have hc : src.getCursor = c.bytes ++ (serializeCells cells ++ tail) := by
      rw [hcursor]
      simp [serializeCells]
    have hlength := length_getCursor src
    rw [hc, List.length_append] at hlength
    have hholds : Holds (Cell.init src.getCursor src.getLength) c (serializeCells cells ++ tail) := by
      refine ⟨congrArg some hc, ?_⟩
      have := c.two_le_length_bytes
      change 2 ≤ src.getLength
      omega
    have hsize : (Cell.init src.getCursor src.getLength).deserialize i announced =
        .ok c.bytes.length :=
      (hholds.deserialize_eq_ok (by rw [← hc]; exact (length_getCursor src).symm)).mpr
        ⟨hadmitted 0 c rfl, rfl⟩
    obtain ⟨middle, hread⟩ : ∃ middle, src.readData c.bytes.length =
        .ok (src.getCursor.take c.bytes.length, middle) := ⟨_, dif_pos (by omega)⟩
    obtain ⟨-, -, hdata, hoffset⟩ := readData_eq_ok.mp hread
    have hmiddle : middle.getCursor = serializeCells cells ++ tail := by
      rw [getCursor_of_offset hdata hoffset, hc, List.drop_left]
    have hstore : storeCells i src.getCursor (c :: cells) bc =
        storeCells (i + 1) middle.getCursor cells
          { bc.setCell i (Cell.init src.getCursor src.getLength) with
            cellsCount := bc.cellsCount + 1 } := by
      rw [storeCells, length_getCursor, hmiddle]
      congr 1
      rw [hc, List.drop_left]
    obtain ⟨count, rfl⟩ : ∃ rest, count = rest + 1 := by
      refine ⟨count - 1, ?_⟩
      have hle : (c :: cells).length ≤ count :=
        hcomplete.elim Nat.le_of_eq fun hboth => hboth.2.1
      rw [List.length_cons] at hle
      omega
    simp only [deserializeCells]
    rw [validate_of_true (by omega), ok_bind, hsize, ok_bind, hread, ok_bind, hstore]
    split
    next hend =>
      rw [offset_ge_iff, hmiddle] at hend
      cases cells with
      | nil => exact ⟨_, rfl, hmiddle⟩
      | cons d cells => simp [serializeCells, RawCell.bytes] at hend
    next hopen =>
      rw [offset_ge_iff, hmiddle] at hopen
      apply ih _ hmiddle
      · intro k d hd
        rw [Nat.add_right_comm, Nat.add_assoc]
        exact hadmitted (k + 1) d hd
      · obtain hfull | ⟨-, hle, rfl⟩ := hcomplete
        · exact Or.inl (Nat.succ.inj hfull)
        · refine Or.inr ⟨?_, Nat.le_of_succ_le_succ hle, rfl⟩
          rintro rfl
          exact hopen rfl
      · omega

/-- The header in front of the cells, up to the number of cells. The parser skips
the absent count, the total size and the root index. -/
structure BocHeader where
  flags : UInt8
  offsetSize : UInt8
  absent : UInt8
  totalSize : List UInt8
  rootIndex : UInt8
  noIndex : ¬ (flags.toNat &&& 0x80 ≠ 0)
  noCrc : ¬ (flags.toNat &&& 0x40 ≠ 0)
  noCacheBits : ¬ (flags.toNat &&& 0x20 ≠ 0)
  refSizeOne : flags.toNat &&& 0x7 = 1
  offsetSizeNeZero : offsetSize ≠ 0
  offsetSizeLe : offsetSize.toNat ≤ 8
  totalSize_length : totalSize.length = offsetSize.toNat

def BocHeader.bytes (header : BocHeader) (announced : UInt8) : List UInt8 :=
  header.flags :: header.offsetSize :: announced :: UInt8.ofNat maxRootsCount :: header.absent ::
    (header.totalSize ++ [header.rootIndex])

section ByteStream

variable {src next : ByteStream} {tail : List UInt8}

theorem readData_ok {count : Nat} {bytes : List UInt8}
    (h : src.readData count = .ok (bytes, next)) :
    src.getCursor = bytes ++ next.getCursor ∧ bytes.length = count := by
  obtain ⟨hle, hbytes, hdata, hoffset⟩ := readData_eq_ok.mp h
  constructor
  · rw [getCursor_of_offset hdata hoffset, hbytes, List.take_append_drop]
  · rw [hbytes, List.length_take]
    omega

theorem readData_append (bytes : List UInt8) (h : src.getCursor = bytes ++ tail) :
    ∃ next, src.readData bytes.length = .ok (bytes, next) ∧ next.getCursor = tail := by
  have hlength := length_getCursor src
  rw [h, List.length_append] at hlength
  obtain ⟨next, hread⟩ : ∃ next, src.readData bytes.length =
      .ok (src.getCursor.take bytes.length, next) := ⟨_, dif_pos (by omega)⟩
  obtain ⟨-, -, hdata, hoffset⟩ := readData_eq_ok.mp hread
  rw [h, List.take_left] at hread
  exact ⟨next, hread, by rw [getCursor_of_offset hdata hoffset, h, List.drop_left]⟩

theorem readByte_ok {byte : UInt8} (h : src.readByte = .ok (byte, next)) :
    src.getCursor = byte :: next.getCursor := by
  simp only [ByteStream.readByte, bind_eq_ok, pure_eq_ok, load_eq_ok, Prod.mk.injEq] at h
  obtain ⟨⟨bytes, middle⟩, hread, _, hload, rfl, rfl⟩ := h
  obtain ⟨hcursor, hlength⟩ := readData_ok hread
  obtain ⟨b, rfl⟩ := List.length_eq_one_iff.mp hlength
  simp only [List.getElem?_cons_zero, Option.some.injEq] at hload
  rw [hcursor, hload]
  rfl

theorem readByte_cons {byte : UInt8} (h : src.getCursor = byte :: tail) :
    ∃ next, src.readByte = .ok (byte, next) ∧ next.getCursor = tail := by
  obtain ⟨next, hread, hnext⟩ := readData_append [byte] h
  refine ⟨next, ?_, hnext⟩
  unfold ByteStream.readByte
  rw [show (1 : Nat) = [byte].length from rfl, hread]
  rfl

theorem readUint_one (src : ByteStream) :
    src.readUint 1 = (do let (byte, next) ← src.readByte; pure (byte.toNat, next)) := by
  unfold ByteStream.readUint ByteStream.readByte ByteStream.readData
  by_cases h : 1 ≤ src.getLength
  · rw [dif_pos ⟨by decide, h⟩, dif_pos h]
    have hlength := length_getCursor src
    cases hcursor : src.getCursor with
    | nil =>
      rw [hcursor, List.length_nil] at hlength
      omega
    | cons byte tail =>
      have hvalue : readUintBE [byte] = byte.toNat := by simp [readUintBE]
      simp [ByteStream.fieldWidth, hvalue, load, readAt, bind, Except.bind, pure, Except.pure]
  · rw [dif_neg (fun hboth => h hboth.2), dif_neg h]
    rfl

theorem readUint_one_ok {value : Nat} (h : src.readUint 1 = .ok (value, next)) :
    ∃ byte : UInt8, src.getCursor = byte :: next.getCursor ∧ value = byte.toNat := by
  simp only [readUint_one, bind_eq_ok, pure_eq_ok, Prod.mk.injEq] at h
  obtain ⟨⟨byte, _⟩, hread, hvalue, rfl⟩ := h
  exact ⟨byte, readByte_ok hread, hvalue.symm⟩

theorem readUint_one_cons {byte : UInt8} (h : src.getCursor = byte :: tail) :
    ∃ next, src.readUint 1 = .ok (byte.toNat, next) ∧ next.getCursor = tail := by
  obtain ⟨next, hread, hnext⟩ := readByte_cons h
  refine ⟨next, ?_, hnext⟩
  rw [readUint_one, hread]
  rfl

end ByteStream

/-- What `deserialize_cells_tree` accepts: a header, and an admitted list of cells
that fills the announced number or ends with the stream. -/
theorem deserializeCellsTree_ok {src next : ByteStream} {bc result : BocContext}
    (h : deserializeCellsTree src bc = .ok (next, result)) :
    ∃ (header : BocHeader) (announced : UInt8) (cells : List RawCell),
      src.getCursor = header.bytes announced ++ (serializeCells cells ++ next.getCursor) ∧
      result = storeCells 0 (serializeCells cells ++ next.getCursor) cells
        { bc with cellsCount := 0 } ∧
      AdmittedFrom 0 announced.toNat cells ∧ cells.length ≤ maxContractCellsCount ∧
      cells.length ≤ announced.toNat ∧
      (cells.length = announced.toNat ∨ next.getCursor = []) ∧
      (0 < announced.toNat → 0 < cells.length) := by
  simp only [deserializeCellsTree, bind_eq_ok, validate_eq_ok] at h
  obtain ⟨⟨flags, s1⟩, h1, _, ⟨hindex, hcrc, hcache⟩, _, hrefSize, ⟨offsetSize, s2⟩, h2, _,
    ⟨hoffset, hoffsetLe⟩, ⟨announced, s3⟩, h3, ⟨roots, s4⟩, h4, _, hroots, ⟨absent, s5⟩, h5,
    ⟨totalSize, s6⟩, h6, ⟨rootList, s7⟩, h7, h⟩ := h
  simp only at hindex hcrc hcache hrefSize hoffset hoffsetLe hroots h2 h3 h4 h5 h6 h7 h
  rw [hrefSize] at h3 h4 h5 h7
  rw [hroots] at h7
  obtain ⟨announcedByte, c3, rfl⟩ := readUint_one_ok h3
  obtain ⟨rootsByte, c4, rfl⟩ := readUint_one_ok h4
  obtain ⟨absentByte, c5, rfl⟩ := readUint_one_ok h5
  obtain ⟨c6, hsize⟩ := readData_ok h6
  obtain ⟨c7, hone⟩ := readData_ok h7
  obtain ⟨rootIndex, rfl⟩ := List.length_eq_one_iff.mp hone
  obtain ⟨cells, hcursor, hresult, hadmitted, hbound, hle, hend, hpos⟩ := deserializeCells_ok h
  refine ⟨⟨flags, offsetSize, absentByte, totalSize, rootIndex, hindex, hcrc, hcache, hrefSize,
    hoffset, hoffsetLe, hsize⟩, announcedByte, cells, ?_, ?_, hadmitted, ?_, hle, hend, hpos⟩
  · have hrootsByte : rootsByte = UInt8.ofNat maxRootsCount := by
      rw [← hroots, UInt8.ofNat_toNat]
    rw [readByte_ok h1, readByte_ok h2, c3, c4, c5, c6, c7, hcursor, hrootsByte]
    simp [BocHeader.bytes]
  · rw [hresult, hcursor]
  · cases hlast : cells.length with
    | zero => decide
    | succ k =>
      have := hbound k (by omega)
      omega

/-- Every admitted list behind an acceptable header is parsed. -/
theorem deserializeCellsTree_serialize {src : ByteStream} (bc : BocContext)
    (header : BocHeader) (announced : UInt8) (cells : List RawCell) (tail : List UInt8)
    (hcursor : src.getCursor = header.bytes announced ++ (serializeCells cells ++ tail))
    (hadmitted : AdmittedFrom 0 announced.toNat cells)
    (hcomplete : Complete cells announced.toNat tail)
    (hbound : cells.length ≤ maxContractCellsCount) :
    ∃ next, deserializeCellsTree src bc =
      .ok (next, storeCells 0 (serializeCells cells ++ tail) cells
        { bc with cellsCount := 0 }) ∧ next.getCursor = tail := by
  have hroots : (UInt8.ofNat maxRootsCount).toNat = maxRootsCount := by decide
  simp only [BocHeader.bytes, List.cons_append, List.append_assoc] at hcursor
  obtain ⟨s1, h1, hcursor⟩ := readByte_cons hcursor
  obtain ⟨s2, h2, hcursor⟩ := readByte_cons hcursor
  obtain ⟨s3, h3, hcursor⟩ := readUint_one_cons hcursor
  obtain ⟨s4, h4, hcursor⟩ := readUint_one_cons hcursor
  obtain ⟨s5, h5, hcursor⟩ := readUint_one_cons hcursor
  obtain ⟨s6, h6, hcursor⟩ := readData_append _ hcursor
  obtain ⟨s7, h7, hcursor⟩ := readData_append [header.rootIndex] hcursor
  rw [header.totalSize_length] at h6
  obtain ⟨next, hcells, hnext⟩ := deserializeCells_serialize announced.toNat
    { bc with cellsCount := 0 } cells tail hcursor hadmitted hcomplete (by omega)
  refine ⟨next, ?_, hnext⟩
  simp only [deserializeCellsTree]
  rw [h1, ok_bind]
  simp only
  rw [validate_of_true ⟨header.noIndex, header.noCrc, header.noCacheBits⟩, ok_bind,
    header.refSizeOne, validate_of_true rfl, ok_bind, h2, ok_bind]
  simp only
  rw [validate_of_true ⟨header.offsetSizeNeZero, header.offsetSizeLe⟩, ok_bind, h3, ok_bind]
  simp only
  rw [h4, ok_bind]
  simp only
  rw [hroots, validate_of_true rfl, ok_bind, h5, ok_bind]
  simp only
  rw [h6, ok_bind]
  simp only
  rw [show maxRootsCount * 1 = [header.rootIndex].length from rfl, h7, ok_bind]
  simp only
  rw [hcells, hcursor]

end EverscaleLedger.Properties
