import Mathlib

/-! Byte-addressed memory with named fields. Several structures may lie over
the same bytes, so what one field reads after a write to another is decided by
their positions alone. -/
namespace EverscaleLedger.Library

abbrev Memory := Nat → UInt8

structure Field where
  offset : Nat
  size : Nat
deriving DecidableEq

namespace Field

/-- The next member of a C structure: the first offset of the wanted alignment. -/
def after (previous : Field) (size alignment : Nat) : Field :=
  ⟨(previous.offset + previous.size + alignment - 1) / alignment * alignment, size⟩

/-- No byte of the field lies in the given range. -/
def Apart (field : Field) (start length : Nat) : Prop :=
  field.offset + field.size ≤ start ∨ start + length ≤ field.offset

instance (field : Field) (start length : Nat) : Decidable (field.Apart start length) :=
  inferInstanceAs (Decidable (_ ∨ _))

end Field

/-- Little-endian value of a byte string. -/
def littleEndianValue : List UInt8 → Nat
  | [] => 0
  | byte :: bytes => byte.toNat + 256 * littleEndianValue bytes

def littleEndian : (width : Nat) → Nat → List UInt8
  | 0, _ => []
  | width + 1, value => UInt8.ofNat value :: littleEndian width (value / 256)

namespace Memory

def zero : Memory := fun _ => 0

def read (memory : Memory) (field : Field) : List UInt8 :=
  (List.range field.size).map fun i => memory (field.offset + i)

def write (memory : Memory) (start : Nat) (bytes : List UInt8) : Memory := fun address =>
  if start ≤ address ∧ address < start + bytes.length then bytes.getD (address - start) 0
  else memory address

def readUint (memory : Memory) (field : Field) : Nat := littleEndianValue (memory.read field)

def writeUint (memory : Memory) (field : Field) (value : Nat) : Memory :=
  memory.write field.offset (littleEndian field.size value)

@[simp] theorem length_read (memory : Memory) (field : Field) :
    (memory.read field).length = field.size := by
  simp [read]

theorem read_write_apart {field : Field} {start : Nat} {bytes : List UInt8}
    (memory : Memory) (h : field.Apart start bytes.length) :
    (memory.write start bytes).read field = memory.read field := by
  unfold read
  apply List.map_congr_left
  intro i hi
  rw [List.mem_range] at hi
  unfold write
  rw [if_neg]
  unfold Field.Apart at h
  omega

/-- A block that is shorter than the field fills its start. -/
theorem read_write_start {field : Field} {bytes : List UInt8} (memory : Memory)
    (h : bytes.length ≤ field.size) :
    (memory.write field.offset bytes).read field =
      bytes ++ (memory.read field).drop bytes.length := by
  apply List.ext_getElem
  · simp [h]
  · intro i hi hbytes
    simp only [read, List.getElem_map, List.getElem_range, write, List.getElem_append,
      List.getElem_drop]
    by_cases hstart : i < bytes.length
    · rw [if_pos (by omega), Nat.add_sub_cancel_left, List.getD_eq_getElem _ _ hstart,
        dif_pos hstart]
    · rw [if_neg (by omega), dif_neg hstart, Nat.add_sub_cancel' (by omega)]

theorem read_write_self {field : Field} {bytes : List UInt8}
    (memory : Memory) (h : bytes.length = field.size) :
    (memory.write field.offset bytes).read field = bytes := by
  have hnone : (memory.read field).drop bytes.length = [] :=
    List.drop_eq_nil_of_le (Nat.le_of_eq (by rw [length_read, h]))
  rw [read_write_start memory (Nat.le_of_eq h), hnone, List.append_nil]

theorem take_read_write {field : Field} {bytes : List UInt8} (memory : Memory)
    (h : bytes.length ≤ field.size) :
    ((memory.write field.offset bytes).read field).take bytes.length = bytes := by
  rw [read_write_start memory h, List.take_left]

/-- A block behind the part of a field that is in use extends that part. -/
theorem take_read_write_at {field : Field} {bytes : List UInt8} {used : Nat} (memory : Memory)
    (h : used + bytes.length ≤ field.size) :
    ((memory.write (field.offset + used) bytes).read field).take (used + bytes.length) =
      (memory.read field).take used ++ bytes := by
  apply List.ext_getElem
  · simp
    omega
  · intro i hi hbytes
    simp only [read, write, List.getElem_take, List.getElem_map, List.getElem_range,
      List.getElem_append, List.length_take, List.length_map, List.length_range]
    simp only [List.length_append, List.length_take, length_read] at hbytes
    by_cases hused : i < used
    · rw [if_neg (by omega), dif_pos (by omega)]
    · rw [if_pos (by omega), dif_neg (by omega), List.getD_eq_getElem _ _ (by omega)]
      congr 1
      omega

theorem write_before {start address : Nat} (memory : Memory) (bytes : List UInt8)
    (h : address < start) : memory.write start bytes address = memory address :=
  if_neg fun hboth => Nat.not_le_of_lt h hboth.1

/-- A block written in two pieces. -/
theorem write_append (memory : Memory) (start : Nat) (first second : List UInt8) :
    memory.write start (first ++ second) =
      (memory.write start first).write (start + first.length) second := by
  funext address
  unfold write
  rw [List.length_append]
  by_cases hsecond : start + first.length ≤ address
  · rw [if_neg (show ¬ (start ≤ address ∧ address < start + first.length) by omega)]
    have hindex : address - start = first.length + (address - (start + first.length)) := by omega
    by_cases hend : address < start + first.length + second.length
    · rw [if_pos (by omega), if_pos (by omega), hindex, List.getD_append_right _ _ _ _ (by omega),
        Nat.add_sub_cancel_left]
    · rw [if_neg (by omega), if_neg (by omega)]
  · rw [if_neg (show ¬ (start + first.length ≤ address ∧ _) from fun h => hsecond h.1)]
    by_cases hstart : start ≤ address
    · rw [if_pos (by omega), if_pos (by omega), List.getD_append _ _ _ _ (by omega)]
    · rw [if_neg (by omega), if_neg (by omega)]

/-- A write hides an earlier one to the same bytes, also when another came between. -/
theorem write_between (memory : Memory) {old new : List UInt8} (start : Nat)
    (hlength : new.length = old.length) (other : Nat) (bytes : List UInt8) :
    ((memory.write start old).write other bytes).write start new =
      (memory.write other bytes).write start new := by
  funext address
  unfold write
  by_cases hnew : start ≤ address ∧ address < start + new.length
  · rw [if_pos hnew, if_pos hnew]
  · rw [if_neg hnew, if_neg hnew]
    rw [hlength] at hnew
    rw [if_neg hnew]

@[simp] theorem length_littleEndian (width value : Nat) :
    (littleEndian width value).length = width := by
  induction width generalizing value with
  | zero => rfl
  | succ width ih => simp [littleEndian, ih]

theorem littleEndianValue_littleEndian (width value : Nat) (h : value < 256 ^ width) :
    littleEndianValue (littleEndian width value) = value := by
  induction width generalizing value with
  | zero =>
    have hzero : value = 0 := by simpa using h
    simp [littleEndian, littleEndianValue, hzero]
  | succ width ih =>
    have hquotient : value / 256 < 256 ^ width := by
      rw [Nat.div_lt_iff_lt_mul (by decide)]
      rwa [Nat.pow_succ] at h
    rw [littleEndian, littleEndianValue, ih _ hquotient, UInt8.toNat_ofNat']
    omega

theorem readUint_write_apart {field : Field} {start : Nat} {bytes : List UInt8}
    (memory : Memory) (h : field.Apart start bytes.length) :
    (memory.write start bytes).readUint field = memory.readUint field := by
  unfold readUint
  rw [read_write_apart memory h]

theorem readUint_writeUint {field : Field} {value : Nat} (memory : Memory)
    (h : value < 256 ^ field.size) :
    (memory.writeUint field value).readUint field = value := by
  unfold readUint writeUint
  rw [read_write_self memory (length_littleEndian _ _), littleEndianValue_littleEndian _ _ h]

theorem read_zero (field : Field) : zero.read field = List.replicate field.size 0 := by
  simp [read, zero, List.map_const']

/-- Write blocks to the starts of fields, in order. -/
def writeFields (memory : Memory) (blocks : List (Field × List UInt8)) : Memory :=
  blocks.foldl (fun memory block => memory.write block.1.offset block.2) memory

theorem read_writeFields_apart {field : Field} {blocks : List (Field × List UInt8)}
    (memory : Memory)
    (h : ∀ block ∈ blocks, field.Apart block.1.offset block.2.length) :
    (memory.writeFields blocks).read field = memory.read field := by
  induction blocks generalizing memory with
  | nil => rfl
  | cons block blocks ih =>
    rw [writeFields, List.foldl_cons]
    rw [← read_write_apart memory (h block List.mem_cons_self)]
    exact ih _ fun other hother => h other (List.mem_cons_of_mem block hother)

/-- Fields that lie apart keep what was written to them. -/
theorem read_writeFields {field : Field} {bytes : List UInt8}
    {blocks : List (Field × List UInt8)} (memory : Memory)
    (hapart : (blocks.map Prod.fst).Pairwise fun a b => a.Apart b.offset b.size)
    (hsize : ∀ block ∈ blocks, block.2.length ≤ block.1.size) (h : (field, bytes) ∈ blocks) :
    (memory.writeFields blocks).read field =
      bytes ++ (memory.read field).drop bytes.length := by
  induction blocks generalizing memory with
  | nil => cases h
  | cons block blocks ih =>
    rw [List.map_cons, List.pairwise_cons] at hapart
    have hrest : ∀ other ∈ blocks, other.2.length ≤ other.1.size :=
      fun other hother => hsize other (List.mem_cons_of_mem block hother)
    rw [writeFields, List.foldl_cons]
    obtain rfl | hmem := List.mem_cons.mp h
    · have hlater : ∀ other ∈ blocks, field.Apart other.1.offset other.2.length := by
        intro other hother
        have happart : field.Apart other.1.offset other.1.size :=
          hapart.1 other.1 (List.mem_map_of_mem hother)
        have hle := hrest other hother
        unfold Field.Apart at happart ⊢
        omega
      rw [← read_write_start memory (hsize _ List.mem_cons_self)]
      exact read_writeFields_apart _ hlater
    · have happart : block.1.Apart field.offset field.size :=
        hapart.1 field (List.mem_map_of_mem hmem)
      have hle := hsize block List.mem_cons_self
      have hearlier : field.Apart block.1.offset block.2.length := by
        unfold Field.Apart at happart ⊢
        omega
      rw [← read_write_apart memory hearlier]
      exact ih _ hapart.2 hrest hmem

end Memory
end EverscaleLedger.Library
