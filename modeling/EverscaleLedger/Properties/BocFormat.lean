import EverscaleLedger.Library.SelfDelimiting
import EverscaleLedger.Properties.Confinement

/-! The format of the bags of cells that the parser takes, as a set of byte strings:
which strings are in it, and that each of them is read in one way only. -/
namespace EverscaleLedger.Properties

open Library Source

/-- A bag of cells with the bytes behind its last cell. The announced number of cells is
reached, or the bytes end before it is. -/
structure Boc where
  header : BocHeader
  announced : UInt8
  cells : List RawCell
  tail : List UInt8
  admitted : AdmittedFrom 0 announced.toNat cells
  complete : Complete cells announced.toNat tail
  bounded : cells.length ≤ maxContractCellsCount

namespace Boc

def bytes (boc : Boc) : List UInt8 :=
  boc.header.bytes boc.announced ++ (serializeCells boc.cells ++ boc.tail)

theorem length_le_announced (boc : Boc) : boc.cells.length ≤ boc.announced.toNat :=
  boc.complete.elim Nat.le_of_eq fun hshort => hshort.2.1

end Boc

theorem RawCell.selfDelimiting : SelfDelimiting RawCell.bytes := by
  intro c d rest rest' heq
  have hholds (e : RawCell) (behind : List UInt8) :
      Holds (Cell.init (e.bytes ++ behind) e.bytes.length) e behind :=
    ⟨rfl, e.two_le_length_bytes⟩
  have hsame : Holds (Cell.init (c.bytes ++ rest) c.bytes.length) d rest' :=
    ⟨congrArg some heq, c.two_le_length_bytes⟩
  exact (hholds c rest).unique hsame

/-- The offset size of a header says how long the total size behind it is. -/
theorem BocHeader.selfDelimiting :
    SelfDelimiting fun headed : BocHeader × UInt8 => headed.1.bytes headed.2 := by
  rintro ⟨header, announced⟩ ⟨header', announced'⟩ rest rest' heq
  simp only [BocHeader.bytes, List.cons_append, List.append_assoc, List.cons.injEq] at heq
  obtain ⟨hflags, hoffset, hannounced, -, habsent, hbehind⟩ := heq
  have hlength : header.totalSize.length = header'.totalSize.length := by
    rw [header.totalSize_length, header'.totalSize_length, hoffset]
  obtain ⟨hsize, hroot⟩ := List.append_inj hbehind hlength
  simp only [List.cons.injEq] at hroot
  cases header
  cases header'
  simp only at hflags hoffset habsent hsize hroot
  obtain ⟨hrootIndex, -⟩ := hroot
  subst hflags hoffset habsent hsize hrootIndex hannounced
  rfl

/-- A row of cells cannot end before another one that starts the same stream: it has all
cells that were announced, or nothing comes behind it. -/
theorem Complete.nil_of_append {cells more : List RawCell} {announced : Nat}
    {tail : List UInt8} (h : Complete cells announced (serializeCells more ++ tail))
    (hle : (cells ++ more).length ≤ announced) : more = [] := by
  obtain hfull | ⟨-, -, hend⟩ := h
  · apply List.eq_nil_of_length_eq_zero
    rw [List.length_append] at hle
    omega
  · cases more with
    | nil => rfl
    | cons c more => simp [serializeCells, RawCell.bytes] at hend

/-- A string is the bytes of one bag of cells at most. -/
theorem Boc.bytes_injective : Function.Injective Boc.bytes := by
  intro first second heq
  obtain ⟨hheaded, hstream⟩ := BocHeader.selfDelimiting.rest_eq
    (a := (first.header, first.announced)) (b := (second.header, second.announced)) heq
  obtain ⟨hheader, hannounced⟩ := Prod.mk.inj hheaded
  have hsame : first.cells = second.cells ∧ first.tail = second.tail := by
    have hfirst := first.complete
    have hsecond := second.complete
    have hfirst_le := first.length_le_announced
    have hsecond_le := second.length_le_announced
    rcases Nat.le_total first.cells.length second.cells.length with hle | hle
    · obtain ⟨more, hmore, htail⟩ := RawCell.selfDelimiting.flatMap_continues hstream hle
      rw [htail] at hfirst
      rw [hmore, ← hannounced] at hsecond_le
      obtain rfl := hfirst.nil_of_append hsecond_le
      rw [List.append_nil] at hmore
      exact ⟨hmore.symm, htail⟩
    · obtain ⟨more, hmore, htail⟩ := RawCell.selfDelimiting.flatMap_continues hstream.symm hle
      rw [htail] at hsecond
      rw [hmore, hannounced] at hfirst_le
      obtain rfl := hsecond.nil_of_append hfirst_le
      rw [List.append_nil] at hmore
      exact ⟨hmore, htail.symm⟩
  cases first
  cases second
  simp only at hheader hannounced hsame
  obtain ⟨hcells, htail⟩ := hsame
  subst hheader hannounced hcells htail
  rfl

/-- The parser has read a bag of cells: its cells fill the slots, what was behind them is
still to be read, and the tables of hashes and depths are as before. -/
structure ReadAs (boc : Boc) (bc parsed : BocContext) (next : ByteStream) : Prop where
  rest : next.getCursor = boc.tail
  cells : Parsed parsed boc.cells
  beyond : ∀ i, boc.cells.length ≤ i → parsed.cells i = bc.cells i
  hashes : parsed.hashes = bc.hashes
  cellDepth : parsed.cellDepth = bc.cellDepth
  publicKeyCellIndex : parsed.publicKeyCellIndex = bc.publicKeyCellIndex

theorem storeCells_beyond {i j : Nat} (stream : List UInt8) (cells : List RawCell)
    (bc : BocContext) (h : i + cells.length ≤ j) :
    (storeCells i stream cells bc).cells j = bc.cells j := by
  induction cells generalizing i stream bc with
  | nil => rfl
  | cons c cells ih =>
    rw [List.length_cons] at h
    rw [storeCells, ih _ _ (by omega)]
    exact Function.update_of_ne (by omega) _ _

theorem Boc.readAs (boc : Boc) (bc : BocContext) {next : ByteStream}
    (h : next.getCursor = boc.tail) :
    ReadAs boc bc
      (storeCells 0 (serializeCells boc.cells ++ boc.tail) boc.cells { bc with cellsCount := 0 })
      next := by
  constructor
  · exact h
  · exact parsed_storeCells _ _ _ rfl
  · intro i hi
    rw [storeCells_beyond _ _ _ (by omega)]
  · rw [storeCells_eq]
  · rw [storeCells_eq]
  · rw [storeCells_eq]

/-- The parser decides the format: it reads the bag of cells that a string is, of which
there is one at most, and throws on every other string. -/
theorem boc_language (src : ByteStream) (bc : BocContext) :
    (∃! boc : Boc, boc.bytes = src.getCursor ∧
        ∃ next parsed, deserializeCellsTree src bc = .ok (next, parsed) ∧
          ReadAs boc bc parsed next) ∨
      (¬ ∃ boc : Boc, boc.bytes = src.getCursor) ∧
        ∃ error, deserializeCellsTree src bc = .error (.thrown error) := by
  by_cases hboc : ∃ boc : Boc, boc.bytes = src.getCursor
  · left
    obtain ⟨boc, hbytes⟩ := hboc
    obtain ⟨next, hparse, hrest⟩ := deserializeCellsTree_serialize bc boc.header boc.announced
      boc.cells boc.tail hbytes.symm boc.admitted boc.complete boc.bounded
    refine ⟨boc, ⟨hbytes, next, _, hparse, boc.readAs bc hrest⟩, fun other hother => ?_⟩
    exact Boc.bytes_injective (hother.1.trans hbytes.symm)
  · right
    refine ⟨hboc, ?_⟩
    cases hparse : deserializeCellsTree src bc with
    | error failure =>
      cases failure with
      | thrown error => exact ⟨error, rfl⟩
      | fault => exact absurd hparse (deserializeCellsTree_inBounds src bc).1
    | ok result =>
      obtain ⟨header, announced, cells, hcursor, -, hadmitted, hbound, hle, hend, hpos⟩ :=
        deserializeCellsTree_ok hparse
      have hcomplete : Complete cells announced.toNat result.1.getCursor := by
        by_cases hfull : cells.length = announced.toNat
        · exact Or.inl hfull
        · have hsome : 0 < cells.length := hpos (by omega)
          exact Or.inr ⟨List.ne_nil_of_length_pos hsome, hle, hend.resolve_left hfull⟩
      exact absurd ⟨⟨header, announced, cells, result.1.getCursor, hadmitted, hcomplete, hbound⟩,
        hcursor.symm⟩ hboc

end EverscaleLedger.Properties
