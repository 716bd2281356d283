import EverscaleLedger.Properties.PrefixedCell
import EverscaleLedger.Properties.Representation

/-! Trees of cells given by their bits, with their representation hash and with the
dictionaries that are written in them. The tables that `calc_cell_hash` leaves for
a list of cells hold the digests of the trees that the cells stand for. -/
namespace EverscaleLedger.Properties

open Library Source

/-- A cell by its bits, or one of which only hash and depth are known. -/
inductive CellTree where
  | cell (bits : List Bool) (children : List CellTree)
  | known (digest : Digest)

namespace CellTree

/-- The descriptor bytes of an ordinary cell, and its completed data. -/
def label (bits : List Bool) (refs : Nat) : Label where
  d1 := UInt8.ofNat refs
  d2 := UInt8.ofNat (bits.length / 8 + (bits.length + 7) / 8)
  data := Bits.pack (Bits.completed bits)

mutual

/-- The representation hash and the depth of a tree. -/
def digest (sha256 : List UInt8 → Hash) : CellTree → Digest
  | cell bits children =>
      let digests := digestAll sha256 children
      ⟨sha256 (representationOf (label bits children.length) digests),
        depthOf (digests.map Digest.depth)⟩
  | known digest => digest

def digestAll (sha256 : List UInt8 → Hash) : List CellTree → List Digest
  | [] => []
  | tree :: rest => tree.digest sha256 :: digestAll sha256 rest

end

theorem digestAll_eq (sha256 : List UInt8 → Hash) (trees : List CellTree) :
    digestAll sha256 trees = trees.map (digest sha256) := by
  induction trees with
  | nil => rfl
  | cons tree rest ih => rw [digestAll, ih, List.map_cons]

theorem digest_cell (sha256 : List UInt8 → Hash) (bits : List Bool) (children : List CellTree) :
    (cell bits children).digest sha256 =
      ⟨sha256 (representationOf (label bits children.length) (children.map (digest sha256))),
        depthOf (children.map fun child => (child.digest sha256).depth)⟩ := by
  rw [digest, digestAll_eq, List.map_map]
  rfl

end CellTree

/-! Dictionaries. -/

/-- The label of a dictionary node whose keys have `max` bits left, and what comes
after it: the length in unary or in binary, and the bits or one bit for all of them. -/
def readLabel (max : Nat) : List Bool → Option (List Bool × List Bool)
  | false :: rest =>
      let length := (rest.takeWhile id).length
      some ((rest.drop (length + 1)).take length, rest.drop (2 * length + 1))
  | true :: false :: rest =>
      let length := Bits.number (rest.take max.size)
      some ((rest.drop max.size).take length, rest.drop (max.size + length))
  | true :: true :: bit :: rest =>
      some (List.replicate (Bits.number (rest.take max.size)) bit, rest.drop max.size)
  | _ => none

/-- Write a value in the leaf that a key leads to, right after the leaf's label. At a
fork the next bit of the key chooses between two children. -/
def CellTree.writeLeaf (value : List Bool) : (key : List Bool) → CellTree → Option CellTree
  | key, cell bits [] => do
      let (label, rest) ← readLabel key.length bits
      if label = key then some (cell (bits.take (bits.length - rest.length) ++ value) []) else none
  | key, cell bits [left, right] => do
      let (label, _) ← readLabel key.length bits
      if key.take label.length = label then
        match key.drop label.length with
        | [] => none
        | false :: later => do some (cell bits [← left.writeLeaf value later, right])
        | true :: later => do some (cell bits [left, ← right.writeLeaf value later])
      else none
  | _, _ => none

/-! Lists of cells. -/

/-- The tree that a cell of a list stands for. What lies behind the list is known. -/
def treeFrom (behind : Digest) (cells : List RawCell) : (height i : Nat) → CellTree
  | 0, _ => .known behind
  | height + 1, i =>
      match cells[i]? with
      | some c => .cell c.bits (c.refs.map fun r => treeFrom behind cells height r.toNat)
      | none => .known behind

/-- The descriptor bytes and the data are those of the bits and the references. -/
structure RawCell.Canonical (c : RawCell) : Prop where
  d1 : c.d1 = UInt8.ofNat c.refs.length
  refs_le : c.refs.length ≤ maxReferencesCount
  encodes : c.Encodes c.bits c.refs

theorem treeFrom_depth_le (sha256 : List UInt8 → Hash) (behind : Digest) (cells : List RawCell)
    (height i : Nat) :
    ((treeFrom behind cells height i).digest sha256).depth ≤ behind.depth + height := by
  induction height generalizing i with
  | zero => exact Nat.le_refl _
  | succ height ih =>
    unfold treeFrom
    split
    next c _ =>
      rw [CellTree.digest_cell]
      apply depthOf_le
      intro depth hdepth
      rw [List.map_map] at hdepth
      obtain ⟨r, -, rfl⟩ := List.mem_map.mp hdepth
      exact Nat.lt_succ_of_le (ih r.toNat)
    next => exact Nat.le_add_right _ _

/-- The bytes that are hashed for a canonical cell are those of its tree, when its
children's slots hold their digests. -/
theorem RawCell.Canonical.representation_eq {c : RawCell} (h : c.Canonical) {hashed : BocContext}
    {sha256 : List UInt8 → Hash} {child : UInt8 → CellTree}
    (hslots : ∀ r ∈ c.refs, SlotHolds hashed r.toNat ((child r).digest sha256)) :
    [UInt8.ofNat (c.d1.toNat &&& 0b00011111), c.d2] ++ c.data ++ c.depthBytes hashed ++
        c.hashBytes hashed =
      representationOf (CellTree.label c.bits (c.refs.map child).length)
        ((c.refs.map child).map (CellTree.digest sha256)) := by
  have hd2 : UInt8.ofNat (c.bits.length / 8 + (c.bits.length + 7) / 8) = c.d2 := by
    rw [← h.encodes.d2, UInt8.ofNat_toNat]
  have hdepths : c.depthBytes hashed =
      ((c.refs.map child).map (CellTree.digest sha256)).flatMap
        fun digest => writeUintBE 2 digest.depth := by
    rw [List.map_map, List.flatMap_map]
    apply List.flatMap_congr
    intro r hr
    rw [Function.comp_apply, ← (hslots r hr).2, writeUintBE_two_toNat]
  have hhashes : c.hashBytes hashed =
      ((c.refs.map child).map (CellTree.digest sha256)).flatMap
        fun digest => digest.hash.toList := by
    rw [List.map_map, List.flatMap_map]
    apply List.flatMap_congr
    intro r hr
    rw [Function.comp_apply, ← (hslots r hr).1]
  unfold representationOf CellTree.label
  rw [List.length_map, hd2, ← h.encodes.data, ← h.d1, hdepths, hhashes]

/-- The slots of the tables hold the digests of the trees, as far as depths fit a
byte. The induction is on the height: what a cell refers to lies behind it. -/
theorem treeFrom_slotHolds {sdk : Sdk} {hashed : BocContext} {cells : List RawCell}
    {behind : Digest} (hcanonical : ∀ c ∈ cells, c.Canonical)
    (hrefs : ∀ i (c : RawCell), cells[i]? = some c → ∀ r ∈ c.refs,
      i < r.toNat ∧ r.toNat ≤ cells.length)
    (hslots : ∀ i (c : RawCell), cells[i]? = some c →
      hashed.hashes i = sdk.sha256 ([UInt8.ofNat (c.d1.toNat &&& 0b00011111), c.d2] ++ c.data ++
        c.depthBytes hashed ++ c.hashBytes hashed) ∧
      hashed.cellDepth i = depthOver hashed 0 c.refs)
    (hbehind : SlotHolds hashed cells.length behind) {height i : Nat} (hi : i ≤ cells.length)
    (hheight : cells.length ≤ i + height) (hdepth : behind.depth + height < 256) :
    SlotHolds hashed i ((treeFrom behind cells height i).digest sdk.sha256) := by
  induction height generalizing i with
  | zero =>
    obtain rfl : i = cells.length := by omega
    exact hbehind
  | succ height ih =>
    have hbound := treeFrom_depth_le sdk.sha256 behind cells (height + 1) i
    unfold treeFrom at hbound ⊢
    cases hc : cells[i]? with
    | none =>
      obtain rfl : i = cells.length := by
        have hle := List.getElem?_eq_none_iff.mp hc
        omega
      exact hbehind
    | some c =>
      obtain ⟨hhash, hcellDepth⟩ := hslots i c hc
      have hchildren : ∀ r ∈ c.refs, SlotHolds hashed r.toNat
          ((treeFrom behind cells height r.toNat).digest sdk.sha256) := by
        intro r hr
        obtain ⟨hlater, hle⟩ := hrefs i c hc r hr
        exact ih hle (by omega) (by omega)
      simp only [hc, CellTree.digest_cell] at hbound ⊢
      constructor
      · rw [hhash, (hcanonical c (List.mem_of_getElem? hc)).representation_eq hchildren]
      · have hdepths : (c.refs.map fun r => (hashed.cellDepth r.toNat).toNat) =
            (c.refs.map fun r => treeFrom behind cells height r.toNat).map
              fun child => (child.digest sdk.sha256).depth := by
          rw [List.map_map]
          exact List.map_congr_left fun r hr => (hchildren r hr).2
        rw [hcellDepth, depthOver_toNat, hdepths]
        · exact Nat.zero_max _
        · rw [hdepths]
          omega

end EverscaleLedger.Properties
