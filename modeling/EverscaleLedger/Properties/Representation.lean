import EverscaleLedger.Library.Dag
import EverscaleLedger.Properties.Transmission

/-! The representation hash, as the format of cells defines it: by recursion over
an acyclic graph of cells of any size, with depths as natural numbers. The tables
that `calc_cell_hash` leaves are compared with it. -/
namespace EverscaleLedger.Properties

open Library Source

/-- What a cell says apart from its references. -/
structure Label where
  d1 : UInt8
  d2 : UInt8
  data : List UInt8

/-- What the representation of a cell takes from a child. -/
structure Digest where
  hash : Hash
  depth : Nat
deriving DecidableEq

/-- A pruned node stands for a tree of which hash and depth are known. -/
inductive Node where
  | ordinary (label : Label)
  | pruned (digest : Digest)

structure Graph (size : Nat) extends Dag size where
  node : Fin size → Node

/-- One plus the greatest depth of a child. -/
def depthOf (depths : List Nat) : Nat := if depths = [] then 0 else 1 + depths.foldr max 0

/-- The bytes that a cell is hashed over: the first descriptor byte without its
level bits, the second one, the data, and the depths and hashes of the children. -/
def representationOf (label : Label) (children : List Digest) : List UInt8 :=
  [UInt8.ofNat (label.d1.toNat &&& 0b00011111), label.d2] ++ label.data ++
    (children.flatMap fun child => writeUintBE 2 child.depth) ++
    (children.flatMap fun child => child.hash.toList)

namespace Graph

variable {size : Nat} (sha256 : List UInt8 → Hash) (graph : Graph size)

def combine (i : Fin size) (children : List Digest) : Digest :=
  match graph.node i with
  | .ordinary label =>
      ⟨sha256 (representationOf label children), depthOf (children.map Digest.depth)⟩
  | .pruned digest => digest

def digest (i : Fin size) : Digest := graph.value (graph.combine sha256) i

theorem digest_ordinary {i : Fin size} {label : Label} (h : graph.node i = .ordinary label) :
    graph.digest sha256 i =
      ⟨sha256 (representationOf label ((graph.children i).map (graph.digest sha256))),
        depthOf ((graph.children i).map fun j => (graph.digest sha256 j).depth)⟩ := by
  unfold digest
  rw [Dag.value_eq, combine, h]
  simp only [List.map_map, Function.comp_def]

end Graph

theorem depthOf_cons (depth : Nat) (depths : List Nat) :
    depthOf (depth :: depths) = max (depth + 1) (depthOf depths) := by
  unfold depthOf
  split
  next h => cases h
  split
  next h =>
    subst h
    simp [Nat.add_comm]
  next => simp only [List.foldr_cons]; omega

theorem lt_depthOf {depths : List Nat} {depth : Nat} (h : depth ∈ depths) :
    depth < depthOf depths := by
  induction depths with
  | nil => cases h
  | cons first depths ih =>
    rw [depthOf_cons]
    cases h with
    | head => omega
    | tail _ hmem =>
      have := ih hmem
      omega

theorem depthOf_le {depths : List Nat} {bound : Nat} (h : ∀ depth ∈ depths, depth < bound) :
    depthOf depths ≤ bound := by
  induction depths with
  | nil => exact Nat.zero_le _
  | cons first depths ih =>
    rw [depthOf_cons]
    have hfirst := h first List.mem_cons_self
    have hrest := ih fun depth hmem => h depth (List.mem_cons_of_mem first hmem)
    omega

theorem raiseDepth_toNat {depth child : UInt8} (h : child.toNat < 255) :
    (raiseDepth depth child).toNat = max depth.toNat (child.toNat + 1) := by
  unfold raiseDepth
  split
  · omega
  · rw [UInt8.toNat_ofNat']
    omega

/-- The running maximum in a byte is the depth, as long as that fits a byte. -/
theorem depthOver_toNat (bc : BocContext) (start : UInt8) (refs : List UInt8)
    (h : depthOf (refs.map fun r => (bc.cellDepth r.toNat).toNat) < 256) :
    (depthOver bc start refs).toNat =
      max start.toNat (depthOf (refs.map fun r => (bc.cellDepth r.toNat).toNat)) := by
  unfold depthOver
  induction refs generalizing start with
  | nil => simp [depthOf]
  | cons r refs ih =>
    rw [List.map_cons, depthOf_cons] at h ⊢
    rw [List.foldl_cons, ih _ (by omega), raiseDepth_toNat (by omega), Nat.max_assoc]

theorem writeUintBE_two (value : Nat) :
    writeUintBE 2 value = [UInt8.ofNat (value / 256), UInt8.ofNat value] := by
  simp [writeUintBE, List.range_succ, Nat.shiftRight_eq_div_pow]

theorem writeUintBE_two_toNat (byte : UInt8) : writeUintBE 2 byte.toNat = [0, byte] := by
  have hlt := byte.toNat_lt
  rw [writeUintBE_two, Nat.div_eq_of_lt hlt, UInt8.ofNat_toNat]
  rfl

/-- The tables hold the digests of a list of cells, from cell `low` on, and nothing
was left in them by an earlier command. -/
structure ClearTables (sdk : Sdk) (cells : List RawCell) (low : Nat) (hashed : BocContext) :
    Prop where
  publicKeyCellIndex : hashed.publicKeyCellIndex = 0
  digested : ∀ i c, low ≤ i → cells[i]? = some c → Digested sdk hashed 0 i c
  absent : ∀ j, cells.length ≤ j → hashed.hashes j = zeroHash ∧ hashed.cellDepth j = 0

/-- A slot holds the digest of a node. -/
def SlotHolds (hashed : BocContext) (j : Nat) (digest : Digest) : Prop :=
  hashed.hashes j = digest.hash ∧ (hashed.cellDepth j).toNat = digest.depth

/-- The bytes that are hashed for a cell are its representation, when its
children's slots hold their digests. -/
theorem RawCell.representation_eq {hashed : BocContext} {i : Nat} {c : RawCell} {label : Label}
    {size : Nat} {digest : Fin size → Digest} {origin : Nat → Fin size}
    (hindex : hashed.publicKeyCellIndex = 0)
    (hd1 : label.d1.toNat &&& 0b00011111 = c.d1.toNat &&& 0b00011111) (hd2 : label.d2 = c.d2)
    (hdata : label.data = c.data)
    (hslots : ∀ r ∈ c.refs, SlotHolds hashed r.toNat (digest (origin r.toNat))) :
    c.representation hashed i =
      representationOf label ((c.refs.map fun r => origin r.toNat).map digest) := by
  have hown : c.hashedData hashed i = c.data := if_neg fun hkey => hkey.1 hindex
  have hdepths : c.depthBytes hashed =
      ((c.refs.map fun r => origin r.toNat).map digest).flatMap
        fun child => writeUintBE 2 child.depth := by
    rw [List.map_map, List.flatMap_map]
    apply List.flatMap_congr
    intro r hr
    rw [Function.comp_apply, ← (hslots r hr).2, writeUintBE_two_toNat]
  have hhashes : c.hashBytes hashed =
      ((c.refs.map fun r => origin r.toNat).map digest).flatMap
        fun child => child.hash.toList := by
    rw [List.map_map, List.flatMap_map]
    apply List.flatMap_congr
    intro r hr
    rw [Function.comp_apply, ← (hslots r hr).1]
  unfold representation representationOf
  rw [hown, hdepths, hhashes, hd1, hd2, hdata]

/-- Cells in memory as an image of a graph. Cell `i` is the image of the node
`origin i`: the node itself, up to the level bits that pruning sets, or a pruned
branch with its digest. A slot that no cell was received for counts as empty. -/
structure Image (sha256 : List UInt8 → Hash) {size : Nat} (graph : Graph size)
    (origin : Nat → Fin size) (cells : List RawCell) : Prop where
  ordinary : ∀ (i : Nat) (c : RawCell), cells[i]? = some c → ¬ c.Pruned → ∃ label,
    graph.node (origin i) = .ordinary label ∧
      label.d1.toNat &&& 0b00011111 = c.d1.toNat &&& 0b00011111 ∧ label.d2 = c.d2 ∧
      label.data = c.data ∧ graph.children (origin i) = c.refs.map fun r => origin r.toNat
  pruned : ∀ (i : Nat) (c : RawCell), cells[i]? = some c → c.Pruned →
    (graph.digest sha256 (origin i)).depth ≤ 1024 ∧
    ∃ mask, c.data = [0x01, mask] ++ (graph.digest sha256 (origin i)).hash.toList ++
      writeUintBE 2 (graph.digest sha256 (origin i)).depth
  absent : ∀ (i : Nat) (c : RawCell) (r : UInt8), cells[i]? = some c → r ∈ c.refs →
    cells.length ≤ r.toNat →
    graph.digest sha256 (origin r.toNat) = ⟨zeroHash, 0⟩

/-- A pruned branch carries a digest, its depth cut to the low byte. -/
theorem RawCell.stored_eq {c : RawCell} {digest : Digest} {mask : UInt8}
    (h : c.data = [0x01, mask] ++ digest.hash.toList ++ writeUintBE 2 digest.depth) :
    c.storedHash = digest.hash ∧ c.storedDepth = UInt8.ofNat digest.depth := by
  have hlength : digest.hash.toList.length = 32 := Vector.length_toList
  constructor
  · unfold storedHash
    have hhash : (c.data.drop 2).take hashSize = digest.hash.toList := by
      rw [h, List.append_assoc]
      exact (List.take_append_of_le_length (Nat.le_of_eq hlength.symm)).trans
        (List.take_of_length_le (Nat.le_of_eq hlength))
    apply Vector.ext
    intro i hi
    rw [hhash, Vector.getElem_ofFn, List.getD_eq_getElem _ _ (by rw [hlength]; exact hi),
      Vector.getElem_toList]
  · unfold storedDepth
    rw [h, writeUintBE_two, List.getD_append_right _ _ _ _ (by simp [hashSize])]
    simp [hashSize]

theorem Image.absentSlot {sdk : Sdk} {size : Nat} {graph : Graph size} {origin : Nat → Fin size}
    {cells : List RawCell} {low i : Nat} {hashed : BocContext} {c : RawCell} {r : UInt8}
    (h : Image sdk.sha256 graph origin cells) (htables : ClearTables sdk cells low hashed)
    (hc : cells[i]? = some c) (hr : r ∈ c.refs) (hle : cells.length ≤ r.toNat) :
    SlotHolds hashed r.toNat (graph.digest sdk.sha256 (origin r.toNat)) := by
  rw [h.absent i c r hc hr hle]
  obtain ⟨hhash, hdepth⟩ := htables.absent r.toNat hle
  exact ⟨hhash, by rw [hdepth]; rfl⟩

/-- Slots hold the digests of the nodes that their cells are images of, as far as
the depths fit a byte. -/
theorem Image.slotHolds {sdk : Sdk} {size : Nat} {graph : Graph size} {origin : Nat → Fin size}
    {cells : List RawCell} {low : Nat} {hashed : BocContext}
    (h : Image sdk.sha256 graph origin cells) (hforward : Forward cells)
    (htables : ClearTables sdk cells low hashed) (node : Fin size) :
    ∀ i c, origin i = node → low ≤ i → cells[i]? = some c →
      (graph.digest sdk.sha256 node).depth < 256 →
      SlotHolds hashed i (graph.digest sdk.sha256 node) := by
  apply graph.toDag.induction fun node => ∀ i c, origin i = node → low ≤ i → cells[i]? = some c →
    (graph.digest sdk.sha256 node).depth < 256 →
    SlotHolds hashed i (graph.digest sdk.sha256 node)
  rintro _ ih i c rfl hlow hc hdepth
  obtain ⟨hhash, hcellDepth⟩ := htables.digested i c hlow hc
  unfold RawCell.hashIn at hhash
  unfold RawCell.depthIn at hcellDepth
  by_cases hp : c.Pruned
  · rw [if_pos hp] at hhash hcellDepth
    obtain ⟨-, mask, hdata⟩ := h.pruned i c hc hp
    obtain ⟨hstored, hstoredDepth⟩ := RawCell.stored_eq hdata
    refine ⟨hhash.trans hstored, ?_⟩
    rw [hcellDepth, hstoredDepth, UInt8.toNat_ofNat']
    omega
  · rw [if_neg hp] at hhash hcellDepth
    obtain ⟨label, hnode, hd1, hd2, hdata, hchildren⟩ := h.ordinary i c hc hp
    have hdigest : graph.digest sdk.sha256 (origin i) =
        ⟨sdk.sha256 (representationOf label
            ((c.refs.map fun r => origin r.toNat).map (graph.digest sdk.sha256))),
          depthOf (c.refs.map fun r => (graph.digest sdk.sha256 (origin r.toNat)).depth)⟩ := by
      rw [graph.digest_ordinary sdk.sha256 hnode, hchildren, List.map_map (l := c.refs)
        (g := fun j => (graph.digest sdk.sha256 j).depth)]
      rfl
    rw [hdigest] at hdepth ⊢
    -- a child's digest fits a byte, because the parent's does
    have hslots : ∀ r ∈ c.refs,
        SlotHolds hashed r.toNat (graph.digest sdk.sha256 (origin r.toNat)) := by
      intro r hr
      have hlater := hforward.later i c hc r hr
      by_cases hreceived : r.toNat < cells.length
      · have hmem : origin r.toNat ∈ graph.children (origin i) := by
          rw [hchildren]
          exact List.mem_map_of_mem hr
        have hlt : (graph.digest sdk.sha256 (origin r.toNat)).depth < depthOf (c.refs.map fun r =>
            (graph.digest sdk.sha256 (origin r.toNat)).depth) :=
          lt_depthOf (List.mem_map.mpr ⟨r, hr, rfl⟩)
        exact ih _ hmem r.toNat _ rfl (by omega) (List.getElem?_eq_getElem hreceived)
          (Nat.lt_trans hlt hdepth)
      · exact h.absentSlot htables hc hr (by omega)
    constructor
    · rw [hhash, RawCell.representation_eq htables.publicKeyCellIndex hd1 hd2 hdata hslots]
    · have hdepths : (c.refs.map fun r => (hashed.cellDepth r.toNat).toNat) =
          c.refs.map fun r => (graph.digest sdk.sha256 (origin r.toNat)).depth :=
        List.map_congr_left fun r hr => (hslots r hr).2
      rw [hcellDepth, depthOver_toNat, hdepths]
      · exact Nat.zero_max _
      · rw [hdepths]
        exact hdepth

/-- The slots of the children of a cell. -/
theorem Image.childSlot {sdk : Sdk} {size : Nat} {graph : Graph size} {origin : Nat → Fin size}
    {cells : List RawCell} {low i : Nat} {hashed : BocContext} {c : RawCell} {r : UInt8}
    (h : Image sdk.sha256 graph origin cells) (hforward : Forward cells)
    (htables : ClearTables sdk cells low hashed) (hc : cells[i]? = some c) (hr : r ∈ c.refs)
    (hlow : low ≤ i + 1) (hdepth : (graph.digest sdk.sha256 (origin r.toNat)).depth < 256) :
    SlotHolds hashed r.toNat (graph.digest sdk.sha256 (origin r.toNat)) := by
  have hlater := hforward.later i c hc r hr
  by_cases hreceived : r.toNat < cells.length
  · exact h.slotHolds hforward htables _ r.toNat _ rfl (by omega)
      (List.getElem?_eq_getElem hreceived) hdepth
  · exact h.absentSlot htables hc hr (by omega)

/-- Sixteen cells over pruned branches of the greatest depth stay below two bytes. -/
theorem Image.depth_le {sha256 : List UInt8 → Hash} {size : Nat} {graph : Graph size}
    {origin : Nat → Fin size} {cells : List RawCell} (h : Image sha256 graph origin cells)
    (hforward : Forward cells) (node : Fin size) :
    ∀ i c, origin i = node → cells[i]? = some c →
      (graph.digest sha256 node).depth ≤ 1024 + (cells.length - i) := by
  apply graph.toDag.induction fun node => ∀ i c, origin i = node → cells[i]? = some c →
    (graph.digest sha256 node).depth ≤ 1024 + (cells.length - i)
  rintro _ ih i c rfl hc
  have hi := (List.getElem?_eq_some_iff.mp hc).1
  by_cases hp : c.Pruned
  · have := (h.pruned i c hc hp).1
    omega
  · obtain ⟨label, hnode, -, -, -, hchildren⟩ := h.ordinary i c hc hp
    rw [graph.digest_ordinary sha256 hnode]
    apply depthOf_le
    intro depth hdepth
    obtain ⟨j, hj, rfl⟩ := List.mem_map.mp hdepth
    have hmem := hj
    rw [hchildren] at hj
    obtain ⟨r, hr, rfl⟩ := List.mem_map.mp hj
    have hlater := hforward.later i c hc r hr
    by_cases hreceived : r.toNat < cells.length
    · have := ih _ hmem r.toNat _ rfl (List.getElem?_eq_getElem hreceived)
      omega
    · rw [h.absent i c r hc hr (by omega)]
      simp only
      omega

end EverscaleLedger.Properties
