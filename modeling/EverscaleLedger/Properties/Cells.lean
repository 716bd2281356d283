import EverscaleLedger.Source.Cell

/-! Serialized cells as values of their own, and what the accessors of `cell.c`
return on a pointer to one. -/
namespace EverscaleLedger.Properties

open Library Source

/-! Sizes that small cells announce. -/

theorem no_refs : 0 = refsCountOf 0x00 := by decide
theorem one_ref : 1 = refsCountOf 0x01 := by decide
theorem two_refs : 2 = refsCountOf 0x02 := by decide
theorem one_leveled_ref : 1 = refsCountOf 0x21 := by decide
theorem no_pruned_refs : 0 = refsCountOf 0x28 := by decide
theorem no_data : 0 = dataSizeOf 0x00 := by decide

/-- A cell with the sizes that its two descriptor bytes announce. -/
structure RawCell where
  d1 : UInt8
  d2 : UInt8
  data : List UInt8
  refs : List UInt8
  data_length : data.length = dataSizeOf d2
  refs_length : refs.length = refsCountOf d1
deriving DecidableEq

namespace RawCell

def bytes (c : RawCell) : List UInt8 := c.d1 :: c.d2 :: (c.data ++ c.refs)

def Pruned (c : RawCell) : Prop := c.d1 = prunedBranchD1

instance (c : RawCell) : Decidable c.Pruned := inferInstanceAs (Decidable (_ = _))

/-- What the parser admits at a position of a list that announces so many cells. -/
structure Admitted (c : RawCell) (index announced : Nat) : Prop where
  no_hashes : c.d1.toNat &&& 16 ≠ 16
  exotic_pruned : c.d1.toNat &&& 8 = 8 → c.Pruned
  refs_le : refsCountOf c.d1 ≤ maxReferencesCount
  pruned_size : c.Pruned → c.data.length = prunedBranchDataSize
  refs_bound : ∀ r ∈ c.refs, index < r.toNat ∧ r.toNat ≤ announced

theorem length_bytes (c : RawCell) : c.bytes.length = 2 + c.data.length + c.refs.length := by
  simp [bytes]
  omega

theorem two_le_length_bytes (c : RawCell) : 2 ≤ c.bytes.length := by
  rw [length_bytes]
  omega

theorem refs_of_pruned (c : RawCell) (h : c.Pruned) : c.refs = [] := by
  apply List.eq_nil_of_length_eq_zero
  rw [c.refs_length, h]
  decide

/-- A cell with a reference is ordinary. -/
theorem not_pruned_of_mem_refs {c : RawCell} {r : UInt8} (h : r ∈ c.refs) : ¬ c.Pruned :=
  fun hp => List.ne_nil_of_mem h (c.refs_of_pruned hp)

end RawCell

/-- The cell pointer points to the serialized cell, with `rest` behind it. -/
def Holds (cell : Cell) (c : RawCell) (rest : List UInt8) : Prop :=
  cell.cellBegin = some (c.bytes ++ rest) ∧ 2 ≤ cell.cellLength

namespace Holds

variable {cell : Cell} {c : RawCell} {rest : List UInt8}

theorem begin (h : Holds cell c rest) : cell.begin = .ok (c.bytes ++ rest) := by
  unfold Cell.begin
  rw [h.1]

theorem getD1 (h : Holds cell c rest) : cell.getD1 = .ok c.d1 := by
  have hlength := h.2
  unfold Cell.getD1
  rw [h.begin, ok_bind, validate_of_true (by omega), ok_bind, load_eq_ok]
  rfl

theorem getD2 (h : Holds cell c rest) : cell.getD2 = .ok c.d2 := by
  have hlength := h.2
  unfold Cell.getD2
  rw [h.begin, ok_bind, validate_of_true (by omega), ok_bind, load_eq_ok]
  rfl

theorem getDataSize (h : Holds cell c rest) : cell.getDataSize = .ok c.data.length := by
  unfold Cell.getDataSize
  rw [h.getD2, ok_bind, c.data_length]
  rfl

theorem getData (h : Holds cell c rest) : cell.getData = .ok (c.data ++ (c.refs ++ rest)) := by
  unfold Cell.getData
  rw [h.begin, ok_bind]
  simp [RawCell.bytes, cellDataOffset, pure, Except.pure]

theorem getRefs (h : Holds cell c rest) : cell.getRefs = .ok (c.refs ++ rest, c.refs.length) := by
  unfold Cell.getRefs
  rw [h.getD1, ok_bind, h.getDataSize, ok_bind, h.begin, ok_bind, c.refs_length]
  have hdrop : (c.bytes ++ rest).drop (cellDataOffset + c.data.length) = c.refs ++ rest := by
    rw [Nat.add_comm, ← List.drop_drop]
    simp [RawCell.bytes, cellDataOffset]
  rw [hdrop]
  rfl

theorem loadData (h : Holds cell c rest) :
    (do let data ← cell.getData; loadMany data c.data.length) = .ok c.data := by
  rw [h.getData, ok_bind, loadMany_eq_ok]
  simp

/-- A pointer determines the cell it points to. -/
theorem unique {other : RawCell} {rest' : List UInt8} (h : Holds cell c rest)
    (h' : Holds cell other rest') : c = other := by
  have hbytes : c.bytes ++ rest = other.bytes ++ rest' := Option.some.inj (h.1.symm.trans h'.1)
  simp only [RawCell.bytes, List.cons_append, List.append_assoc, List.cons.injEq] at hbytes
  obtain ⟨hd1, hd2, hbytes⟩ := hbytes
  obtain ⟨hdata, hbytes⟩ := List.append_inj hbytes (by rw [c.data_length, other.data_length, hd2])
  obtain ⟨hrefs, -⟩ := List.append_inj hbytes (by rw [c.refs_length, other.refs_length, hd1])
  cases c
  cases other
  simp only at hd1 hd2 hdata hrefs
  subst hd1 hd2 hdata hrefs
  rfl

end Holds

/-- The reference loop passes exactly when every reference is in the buffer that
the cell was given and in bounds. -/
theorem checkRefs_eq_ok {cell : Cell} {refs : List UInt8} {dataSize index announced : Nat}
    (hlength : refs.length = cell.cellLength - (cellDataOffset + dataSize))
    (count child : Nat) :
    cell.checkRefs refs dataSize index announced count child = .ok () ↔
      ∀ k < count, ∃ r, refs[child + k]? = some r ∧ index < r.toNat ∧ r.toNat ≤ announced := by
  induction count generalizing child with
  | zero => simp [Cell.checkRefs, pure, Except.pure]
  | succ count ih =>
    simp only [Cell.checkRefs, bind_eq_ok, validate_eq_ok, load_eq_ok, exists_and_left,
      exists_const, ih]
    constructor
    · rintro ⟨_, r, hr, ⟨hannounced, hindex⟩, hrest⟩ k hk
      cases k with
      | zero => exact ⟨r, hr, hindex, hannounced⟩
      | succ k =>
        rw [← Nat.add_assoc, Nat.add_right_comm]
        exact hrest k (by omega)
    · intro h
      obtain ⟨r, hr, hindex, hannounced⟩ := h 0 (by omega)
      have hchild := (List.getElem?_eq_some_iff.mp hr).1
      refine ⟨by omega, r, hr, ⟨hannounced, hindex⟩, fun k hk => ?_⟩
      rw [Nat.add_right_comm, Nat.add_assoc]
      exact h (k + 1) (by omega)

/-- On a serialized cell the check decides admission and returns its size. -/
theorem Holds.deserialize_eq_ok {cell : Cell} {c : RawCell} {rest : List UInt8}
    (h : Holds cell c rest) (hlength : cell.cellLength = (c.bytes ++ rest).length)
    {index announced size : Nat} :
    cell.deserialize index announced = .ok size ↔
      c.Admitted index announced ∧ size = c.bytes.length := by
  have hrest : (c.refs ++ rest).length = cell.cellLength - (cellDataOffset + c.data.length) := by
    rw [hlength, List.length_append, List.length_append, c.length_bytes]
    simp only [cellDataOffset]
    omega
  simp only [Cell.deserialize, h.getD1, h.getDataSize, h.getRefs, ok_bind, bind_eq_ok,
    validate_eq_ok, pure_eq_ok, exists_and_left, exists_const, checkRefs_eq_ok hrest]
  constructor
  · rintro ⟨hhashes, hexotic, hrefs, -, hpruned, hbound, hsize⟩
    refine ⟨⟨hhashes, fun hbit => ?_, hrefs, fun hp => ?_, fun r hr => ?_⟩, ?_⟩
    · exact hexotic.resolve_left fun hnot => hnot hbit
    · exact (hpruned.resolve_left fun hnot => hnot hp).2
    · obtain ⟨k, hk, rfl⟩ := List.mem_iff_getElem.mp hr
      obtain ⟨r, hr, hr'⟩ := hbound k hk
      rw [Nat.zero_add, List.getElem?_append_left hk, List.getElem?_eq_getElem hk] at hr
      rwa [Option.some.inj hr]
    · rw [c.length_bytes, ← hsize, cellDataOffset]
  · rintro ⟨hadmitted, hsize⟩
    refine ⟨hadmitted.no_hashes, ?_, hadmitted.refs_le, fun habsent => ?_, ?_, ?_, ?_⟩
    · by_cases hbit : c.d1.toNat &&& 8 = 8
      · exact Or.inr (hadmitted.exotic_pruned hbit)
      · exact Or.inl hbit
    · exact hadmitted.no_hashes habsent.2
    · by_cases hp : c.Pruned
      · exact Or.inr ⟨hp, hadmitted.pruned_size hp⟩
      · exact Or.inl hp
    · intro k hk
      refine ⟨c.refs[k], ?_, hadmitted.refs_bound _ (List.getElem_mem hk)⟩
      rw [Nat.zero_add, List.getElem?_append_left hk, List.getElem?_eq_getElem hk]
    · rw [hsize, c.length_bytes, cellDataOffset]

theorem getD1_init {bytes : List UInt8} {length : Nat} {d1 : UInt8}
    (h : (Cell.init bytes length).getD1 = .ok d1) : bytes[0]? = some d1 := by
  simp only [Cell.getD1, Cell.begin, Cell.init, ok_bind, bind_eq_ok, load_eq_ok] at h
  obtain ⟨_, _, h⟩ := h
  exact h

theorem getDataSize_init {bytes : List UInt8} {length size : Nat}
    (h : (Cell.init bytes length).getDataSize = .ok size) :
    ∃ d2, bytes[1]? = some d2 ∧ size = dataSizeOf d2 := by
  simp only [Cell.getDataSize, Cell.getD2, Cell.begin, Cell.init, ok_bind, bind_eq_ok,
    load_eq_ok, pure_eq_ok] at h
  obtain ⟨d2, ⟨_, _, hd2⟩, hsize⟩ := h
  exact ⟨d2, hd2, hsize.symm⟩

/-- Bytes that pass the check and are long enough start with a serialized cell. -/
theorem exists_rawCell {bytes : List UInt8} {length index announced size : Nat}
    (h : (Cell.init bytes length).deserialize index announced = .ok size)
    (hsize : size ≤ bytes.length) :
    ∃ (c : RawCell) (rest : List UInt8), bytes = c.bytes ++ rest := by
  simp only [Cell.deserialize, bind_eq_ok, validate_eq_ok, pure_eq_ok] at h
  obtain ⟨d1, hd1, _, _, _, _, _, _, _, _, dataSize, hdata, _, _, ⟨refs, count⟩, hrefs, _, _, h⟩ := h
  simp only [Cell.getRefs, hd1, hdata, ok_bind, bind_eq_ok, pure_eq_ok, Prod.mk.injEq] at hrefs
  obtain ⟨_, _, _, hcount⟩ := hrefs
  obtain ⟨d2, hd2, hdata⟩ := getDataSize_init hdata
  have hd1 := getD1_init hd1
  cases bytes with
  | nil => simp at hd1
  | cons first tail =>
    cases tail with
    | nil => simp at hd2
    | cons second tail =>
      simp only [List.getElem?_cons_zero, List.getElem?_cons_succ, Option.some.injEq] at hd1 hd2
      subst hd1 hd2 hdata hcount h
      simp only [cellDataOffset, List.length_cons] at hsize
      refine ⟨⟨first, second, tail.take (dataSizeOf second),
        (tail.drop (dataSizeOf second)).take (refsCountOf first), ?_, ?_⟩,
        (tail.drop (dataSizeOf second)).drop (refsCountOf first), ?_⟩
      · rw [List.length_take]
        omega
      · rw [List.length_take, List.length_drop]
        omega
      · simp only [RawCell.bytes, List.cons_append, List.append_assoc, List.take_append_drop]

end EverscaleLedger.Properties
