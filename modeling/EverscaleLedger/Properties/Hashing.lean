import EverscaleLedger.Properties.Parsing

/-! What `calc_cell_hash` leaves in the tables. Cells are hashed from the last one
down and point to later cells only, so the final tables satisfy one equation for
each cell: its hash and depth are those computed from its children's. -/
namespace EverscaleLedger.Properties

open Library Source

namespace RawCell

/-- The hash that a pruned branch carries. -/
def storedHash (c : RawCell) : Hash :=
  Vector.ofFn fun i => ((c.data.drop 2).take hashSize).getD i.val 0

/-- The low byte of the depth that a pruned branch carries. -/
def storedDepth (c : RawCell) : UInt8 := c.data.getD (2 + hashSize + 1) 0

/-- The data that is hashed for a cell: its own, or that of the public key cell. -/
def hashedData (c : RawCell) (bc : BocContext) (i : Nat) : List UInt8 :=
  if bc.publicKeyCellIndex ≠ 0 ∧ i = bc.publicKeyCellIndex then
    bc.publicKeyCellData.take c.data.length
  else c.data

/-- The root is never the public key cell. -/
@[simp] theorem hashedData_zero (c : RawCell) (bc : BocContext) : c.hashedData bc 0 = c.data :=
  if_neg fun hkey => hkey.1 hkey.2.symm

def depthBytes (c : RawCell) (bc : BocContext) : List UInt8 :=
  c.refs.flatMap fun ref => [0, bc.cellDepth ref.toNat]

def hashBytes (c : RawCell) (bc : BocContext) : List UInt8 :=
  c.refs.flatMap fun ref => (bc.hashes ref.toNat).toList

/-- The bytes that are hashed for a cell. -/
def representation (c : RawCell) (bc : BocContext) (i : Nat) : List UInt8 :=
  [UInt8.ofNat (c.d1.toNat &&& 0b00011111), c.d2] ++ c.hashedData bc i ++ c.depthBytes bc ++
    c.hashBytes bc

end RawCell

/-- The running maximum of the depth of a cell over its references. -/
def depthOver (bc : BocContext) (start : UInt8) (refs : List UInt8) : UInt8 :=
  refs.foldl (fun depth ref => raiseDepth depth (bc.cellDepth ref.toNat)) start

def digestCell (sdk : Sdk) (bc : BocContext) (i : Nat) (c : RawCell) : BocContext :=
  if c.Pruned then (bc.setHash i c.storedHash).setDepth i c.storedDepth
  else (bc.setDepth i (depthOver bc (bc.cellDepth i) c.refs)).setHash i
    (sdk.sha256 (c.representation bc i))

/-- What makes a list of cells fit for hashing: cells point to later ones. -/
structure Forward (cells : List RawCell) : Prop where
  later : ∀ i (c : RawCell), cells[i]? = some c → ∀ r ∈ c.refs, i < r.toNat
  refs_le : ∀ c ∈ cells, c.refs.length ≤ maxReferencesCount
  pruned_size : ∀ c ∈ cells, c.Pruned → prunedBranchDataSize ≤ c.data.length

/-- What `calc_cell_hash` checks on a cell, or needs to stay inside its objects. -/
def Hashable (bc : BocContext) (i : Nat) (c : RawCell) : Prop :=
  c.Pruned ∨ (∀ r ∈ c.refs, r.toNat < maxContractCellsCount) ∧
    (bc.publicKeyCellIndex ≠ 0 ∧ i = bc.publicKeyCellIndex →
      c.data.length ≤ bc.publicKeyCellData.length)

theorem AdmittedFrom.forward {announced : Nat} {cells : List RawCell}
    (h : AdmittedFrom 0 announced cells) : Forward cells where
  later i c hc r hr := by
    have hbound := ((h i c hc).refs_bound r hr).1
    omega
  refs_le c hc := by
    obtain ⟨i, hi⟩ := List.mem_iff_getElem?.mp hc
    rw [c.refs_length]
    exact (h i c hi).refs_le
  pruned_size c hc hp := by
    obtain ⟨i, hi⟩ := List.mem_iff_getElem?.mp hc
    exact Nat.le_of_eq ((h i c hi).pruned_size hp).symm

theorem depthOver_setDepth (bc : BocContext) (i : Nat) (depth start : UInt8) (refs : List UInt8)
    (h : ∀ r ∈ refs, r.toNat ≠ i) :
    depthOver (bc.setDepth i depth) start refs = depthOver bc start refs := by
  unfold depthOver
  induction refs generalizing start with
  | nil => rfl
  | cons r refs ih =>
    rw [List.foldl_cons, List.foldl_cons,
      bc.setDepth_cellDepth_of_ne depth (h r List.mem_cons_self)]
    exact ih _ fun s hs => h s (List.mem_cons_of_mem r hs)

theorem hashDepths_eq_ok {pointer rest buffer : List UInt8} {i child : Nat} {bc : BocContext}
    {result : BocContext × List UInt8} (refs : List UInt8)
    (hpointer : pointer.drop child = refs ++ rest) (hne : ∀ r ∈ refs, r.toNat ≠ i) :
    hashDepths pointer i refs.length child bc buffer = .ok result ↔
      (∀ r ∈ refs, r.toNat < maxContractCellsCount) ∧
        result = (bc.setDepth i (depthOver bc (bc.cellDepth i) refs),
          buffer ++ refs.flatMap fun ref => [0, bc.cellDepth ref.toNat]) := by
  induction refs generalizing child bc buffer with
  | nil =>
    simp only [List.length_nil, hashDepths, pure_eq_ok, depthOver, List.foldl_nil,
      BocContext.setDepth_self, List.flatMap_nil, List.append_nil]
    exact ⟨fun h => ⟨by simp, h.symm⟩, fun h => h.2.symm⟩
  | cons r refs ih =>
    obtain ⟨hload, hnext⟩ := drop_eq_cons hpointer
    have hrest : ∀ s ∈ refs, s.toNat ≠ i := fun s hs => hne s (List.mem_cons_of_mem r hs)
    simp only [List.length_cons, hashDepths, bind_eq_ok, load_eq_ok, validate_eq_ok, hload,
      Option.some.injEq, exists_eq_left', exists_and_left, exists_const]
    rw [ih hnext hrest, BocContext.setDepth_setDepth, depthOver_setDepth _ _ _ _ _ hrest,
      List.forall_mem_cons, and_assoc]
    have hdepth : ∀ s ∈ refs, (bc.setDepth i (raiseDepth (bc.cellDepth i) (bc.cellDepth r.toNat))).cellDepth
        s.toNat = bc.cellDepth s.toNat :=
      fun s hs => bc.setDepth_cellDepth_of_ne _ (hrest s hs)
    have hbuffer : (refs.flatMap fun ref => [0, (bc.setDepth i (raiseDepth (bc.cellDepth i)
        (bc.cellDepth r.toNat))).cellDepth ref.toNat]) =
        refs.flatMap fun ref => [0, bc.cellDepth ref.toNat] :=
      List.flatMap_congr fun s hs => by rw [hdepth s hs]
    have hstart : (bc.setDepth i (raiseDepth (bc.cellDepth i) (bc.cellDepth r.toNat))).cellDepth i =
        raiseDepth (bc.cellDepth i) (bc.cellDepth r.toNat) := Function.update_self ..
    rw [hbuffer, hstart]
    simp [depthOver]

theorem hashHashes_eq_ok {pointer rest buffer : List UInt8} {child : Nat} {bc : BocContext}
    {result : List UInt8} (refs : List UInt8) (hpointer : pointer.drop child = refs ++ rest)
    (hbound : ∀ r ∈ refs, r.toNat < maxContractCellsCount) :
    hashHashes pointer bc refs.length child buffer = .ok result ↔
      result = buffer ++ refs.flatMap fun ref => (bc.hashes ref.toNat).toList := by
  induction refs generalizing child buffer with
  | nil =>
    simp only [List.length_nil, hashHashes, pure_eq_ok, List.flatMap_nil, List.append_nil]
    exact eq_comm
  | cons r refs ih =>
    obtain ⟨hload, hnext⟩ := drop_eq_cons hpointer
    simp only [List.length_cons, hashHashes, bind_eq_ok, load_eq_ok, hload, Option.some.injEq,
      exists_eq_left', BocContext.slot_eq_ok, hbound r List.mem_cons_self, true_and]
    rw [ih hnext fun s hs => hbound s (List.mem_cons_of_mem r hs)]
    simp

theorem loadCellData_eq_ok {cell : Cell} {c : RawCell} {rest data : List UInt8} {i : Nat}
    {bc : BocContext} (h : Holds cell c rest) :
    loadCellData cell i c.data.length bc = .ok data ↔
      (bc.publicKeyCellIndex ≠ 0 ∧ i = bc.publicKeyCellIndex →
        c.data.length ≤ bc.publicKeyCellData.length) ∧ c.hashedData bc i = data := by
  unfold loadCellData RawCell.hashedData
  by_cases hkey : bc.publicKeyCellIndex ≠ 0 ∧ i = bc.publicKeyCellIndex
  · rw [if_pos hkey, if_pos hkey, loadMany_eq_ok]
    exact ⟨fun hload => ⟨fun _ => hload.1, hload.2⟩, fun hboth => ⟨hboth.1 hkey, hboth.2⟩⟩
  · rw [if_neg hkey, if_neg hkey, h.loadData, Except.ok.injEq]
    exact ⟨fun heq => ⟨fun hboth => absurd hboth hkey, heq⟩, fun hboth => hboth.2⟩

theorem calcCellHash_pruned {sdk : Sdk} {cell : Cell} {c : RawCell} {rest : List UInt8} {i : Nat}
    {bc : BocContext} (h : Holds cell c rest) (hi : i < maxContractCellsCount) (hp : c.Pruned)
    (hsize : prunedBranchDataSize ≤ c.data.length) :
    calcCellHash sdk cell i bc = .ok (digestCell sdk bc i c) := by
  have hindex : 2 + hashSize + 1 < c.data.length := hsize
  have hdepth : load (c.data ++ (c.refs ++ rest)) (2 + hashSize + 1) = .ok c.storedDepth := by
    rw [load_eq_ok, List.getElem?_append_left hindex, List.getElem?_eq_getElem hindex,
      RawCell.storedDepth, List.getD_eq_getElem _ _ hindex]
  have hhash : loadMany ((c.data ++ (c.refs ++ rest)).drop 2) hashSize =
      .ok ((c.data.drop 2).take hashSize) := by
    rw [loadMany_eq_ok, List.drop_append_of_le_length (by omega)]
    have hlength : hashSize ≤ (c.data.drop 2).length := by
      rw [List.length_drop]
      omega
    constructor
    · rw [List.length_append]
      omega
    · rw [List.take_append_of_le_length hlength]
  unfold calcCellHash digestCell
  rw [BocContext.slot_eq_ok.mpr ⟨hi, rfl⟩, ok_bind, h.getD1, ok_bind, if_pos hp, if_pos (show c.d1 = prunedBranchD1 from hp),
    h.getData, ok_bind, hhash, ok_bind, hdepth, ok_bind]
  rfl

theorem calcCellHash_ordinary {sdk : Sdk} {cell : Cell} {c : RawCell} {rest : List UInt8}
    {i : Nat} {bc result : BocContext} (h : Holds cell c rest) (hi : i < maxContractCellsCount)
    (hp : ¬ c.Pruned) (hrefs : c.refs.length ≤ maxReferencesCount)
    (hlater : ∀ r ∈ c.refs, i < r.toNat) :
    calcCellHash sdk cell i bc = .ok result ↔
      Hashable bc i c ∧ result = digestCell sdk bc i c := by
  have hpointer : (c.refs ++ rest).drop 0 = c.refs ++ rest := rfl
  have hne : ∀ r ∈ c.refs, r.toNat ≠ i := fun r hr => by
    have := hlater r hr
    omega
  unfold calcCellHash digestCell Hashable
  rw [BocContext.slot_eq_ok.mpr ⟨hi, rfl⟩, ok_bind, h.getD1, ok_bind, if_neg hp, if_neg (show ¬ c.d1 = prunedBranchD1 from hp),
    h.getD2, ok_bind, h.getDataSize, ok_bind]
  simp only [h.getRefs, ok_bind, bind_eq_ok, loadCellData_eq_ok h, validate_eq_ok, hrefs,
    exists_const, true_and, hashDepths_eq_ok c.refs hpointer hne, hp, false_or, pure_eq_ok]
  constructor
  · rintro ⟨_, ⟨hkey, rfl⟩, _, ⟨hbound, rfl⟩, _, hhashes, rfl⟩
    rw [hashHashes_eq_ok c.refs hpointer hbound] at hhashes
    subst hhashes
    exact ⟨⟨hbound, hkey⟩, rfl⟩
  · rintro ⟨⟨hbound, hkey⟩, rfl⟩
    exact ⟨_, ⟨hkey, rfl⟩, _, ⟨hbound, rfl⟩, _,
      (hashHashes_eq_ok c.refs hpointer hbound).mpr rfl, rfl⟩

/-- One cell: the checks, and the two slots that are written. -/
theorem calcCellHash_eq_ok {sdk : Sdk} {cell : Cell} {c : RawCell} {rest : List UInt8} {i : Nat}
    {bc result : BocContext} (h : Holds cell c rest) (hi : i < maxContractCellsCount)
    (hpruned : c.Pruned → prunedBranchDataSize ≤ c.data.length)
    (hrefs : c.refs.length ≤ maxReferencesCount) (hlater : ∀ r ∈ c.refs, i < r.toNat) :
    calcCellHash sdk cell i bc = .ok result ↔
      Hashable bc i c ∧ result = digestCell sdk bc i c := by
  by_cases hp : c.Pruned
  · rw [calcCellHash_pruned h hi hp (hpruned hp), Except.ok.injEq]
    exact ⟨fun heq => ⟨Or.inl hp, heq.symm⟩, fun hboth => hboth.2.symm⟩
  · exact calcCellHash_ordinary h hi hp hrefs hlater

/-! The whole table. -/

/-- Hashing the cells `n - 1` down to `low` of a list. -/
def digestCells (sdk : Sdk) (cells : List RawCell) (low : Nat) : (n : Nat) → BocContext → BocContext
  | 0, bc => bc
  | i + 1, bc =>
      if i < low then bc
      else match cells[i]? with
        | some c => digestCells sdk cells low i (digestCell sdk bc i c)
        | none => digestCells sdk cells low i bc

/-- Hashing writes to the tables of hashes and depths only. -/
structure SameCells (bc result : BocContext) : Prop where
  cells : result.cells = bc.cells
  cellsCount : result.cellsCount = bc.cellsCount
  publicKeyCellData : result.publicKeyCellData = bc.publicKeyCellData
  publicKeyCellIndex : result.publicKeyCellIndex = bc.publicKeyCellIndex

theorem SameCells.refl (bc : BocContext) : SameCells bc bc := ⟨rfl, rfl, rfl, rfl⟩

theorem SameCells.trans {a b c : BocContext} (h : SameCells a b) (h' : SameCells b c) :
    SameCells a c :=
  ⟨h'.cells.trans h.cells, h'.cellsCount.trans h.cellsCount,
    h'.publicKeyCellData.trans h.publicKeyCellData,
    h'.publicKeyCellIndex.trans h.publicKeyCellIndex⟩

theorem SameCells.hashable_iff {bc result : BocContext} (h : SameCells bc result) (i : Nat)
    (c : RawCell) : Hashable result i c ↔ Hashable bc i c := by
  unfold Hashable
  rw [h.publicKeyCellData, h.publicKeyCellIndex]

/-- Two contexts agree on one slot of the tables. -/
def SameSlot (bc result : BocContext) (j : Nat) : Prop :=
  result.hashes j = bc.hashes j ∧ result.cellDepth j = bc.cellDepth j

theorem SameSlot.trans {a b c : BocContext} {j : Nat} (h : SameSlot a b j)
    (h' : SameSlot b c j) : SameSlot a c j :=
  ⟨h'.1.trans h.1, h'.2.trans h.2⟩

theorem digestCell_sameCells (sdk : Sdk) (bc : BocContext) (i : Nat) (c : RawCell) :
    SameCells bc (digestCell sdk bc i c) := by
  unfold digestCell
  split <;> exact ⟨rfl, rfl, rfl, rfl⟩

theorem digestCell_of_ne (sdk : Sdk) (bc : BocContext) {i j : Nat} (c : RawCell) (h : j ≠ i) :
    SameSlot bc (digestCell sdk bc i c) j := by
  unfold digestCell
  split <;> exact ⟨Function.update_of_ne h _ _, Function.update_of_ne h _ _⟩

theorem digestCells_sameCells (sdk : Sdk) (cells : List RawCell) (low n : Nat)
    (bc : BocContext) : SameCells bc (digestCells sdk cells low n bc) := by
  induction n generalizing bc with
  | zero => exact SameCells.refl bc
  | succ i ih =>
    unfold digestCells
    split
    · exact SameCells.refl bc
    split
    next c _ => exact (digestCell_sameCells sdk bc i c).trans (ih _)
    next => exact ih bc

/-- Slots below `low` and from `n` on are left alone. -/
theorem digestCells_outside (sdk : Sdk) (cells : List RawCell) {low n j : Nat} (bc : BocContext)
    (h : j < low ∨ n ≤ j) : SameSlot bc (digestCells sdk cells low n bc) j := by
  induction n generalizing bc with
  | zero => exact ⟨rfl, rfl⟩
  | succ i ih =>
    unfold digestCells
    split
    · exact ⟨rfl, rfl⟩
    split
    next hlow _ c _ =>
      exact (digestCell_of_ne sdk bc c (show j ≠ i by omega)).trans
        (ih (digestCell sdk bc i c) (by omega))
    next => exact ih bc (by omega)

/-- The hash of a cell, from the hashes and depths that its references name. -/
def RawCell.hashIn (c : RawCell) (sdk : Sdk) (bc : BocContext) (i : Nat) : Hash :=
  if c.Pruned then c.storedHash else sdk.sha256 (c.representation bc i)

def RawCell.depthIn (c : RawCell) (bc : BocContext) (start : UInt8) : UInt8 :=
  if c.Pruned then c.storedDepth else depthOver bc start c.refs

theorem digestCell_self (sdk : Sdk) (bc : BocContext) (i : Nat) (c : RawCell) :
    (digestCell sdk bc i c).hashes i = c.hashIn sdk bc i ∧
      (digestCell sdk bc i c).cellDepth i = c.depthIn bc (bc.cellDepth i) := by
  unfold digestCell RawCell.hashIn RawCell.depthIn
  split <;> exact ⟨Function.update_self .., Function.update_self ..⟩

theorem depthOver_congr {bc result : BocContext} (start : UInt8) (refs : List UInt8)
    (h : ∀ r ∈ refs, result.cellDepth r.toNat = bc.cellDepth r.toNat) :
    depthOver result start refs = depthOver bc start refs := by
  unfold depthOver
  induction refs generalizing start with
  | nil => rfl
  | cons r refs ih =>
    rw [List.foldl_cons, List.foldl_cons, h r List.mem_cons_self]
    exact ih _ fun s hs => h s (List.mem_cons_of_mem r hs)

/-- Hash and depth of a cell depend on its children's slots only. -/
theorem RawCell.digest_congr (c : RawCell) (sdk : Sdk) {bc result : BocContext} (i : Nat)
    (start : UInt8) (hsame : SameCells bc result)
    (h : ∀ r ∈ c.refs, SameSlot bc result r.toNat) :
    c.hashIn sdk result i = c.hashIn sdk bc i ∧ c.depthIn result start = c.depthIn bc start := by
  have hdata : c.hashedData result i = c.hashedData bc i := by
    unfold hashedData
    rw [hsame.publicKeyCellData, hsame.publicKeyCellIndex]
  have hdepths : c.depthBytes result = c.depthBytes bc :=
    List.flatMap_congr fun r hr => by rw [(h r hr).2]
  have hhashes : c.hashBytes result = c.hashBytes bc :=
    List.flatMap_congr fun r hr => by rw [(h r hr).1]
  constructor
  · unfold hashIn representation
    rw [hdata, hdepths, hhashes]
  · unfold depthIn
    rw [depthOver_congr start c.refs fun r hr => (h r hr).2]

/-- A slot holds the hash and depth of its cell, over the tables it is part of. -/
def Digested (sdk : Sdk) (bc : BocContext) (start : UInt8) (i : Nat) (c : RawCell) : Prop :=
  bc.hashes i = c.hashIn sdk bc i ∧ bc.cellDepth i = c.depthIn bc start

theorem Digested.congr {sdk : Sdk} {bc result : BocContext} {start : UInt8} {i : Nat}
    {c : RawCell} (h : Digested sdk bc start i c) (hsame : SameCells bc result)
    (hself : SameSlot bc result i) (hrefs : ∀ r ∈ c.refs, SameSlot bc result r.toNat) :
    Digested sdk result start i c := by
  obtain ⟨hhash, hdepth⟩ := c.digest_congr sdk i start hsame hrefs
  exact ⟨hself.1.trans (h.1.trans hhash.symm), hself.2.trans (h.2.trans hdepth.symm)⟩

theorem digestCell_digested (sdk : Sdk) (bc : BocContext) (i : Nat) (c : RawCell)
    (hlater : ∀ r ∈ c.refs, i < r.toNat) :
    Digested sdk (digestCell sdk bc i c) (bc.cellDepth i) i c := by
  obtain ⟨hhash, hdepth⟩ := digestCell_self sdk bc i c
  obtain ⟨hhash', hdepth'⟩ := c.digest_congr sdk i (bc.cellDepth i)
    (digestCell_sameCells sdk bc i c) fun r hr => by
      have := hlater r hr
      exact digestCell_of_ne sdk bc c (by omega)
  exact ⟨hhash.trans hhash'.symm, hdepth.trans hdepth'.symm⟩

/-- The final tables satisfy the equation of every cell that was hashed. -/
theorem digestCells_digested (sdk : Sdk) {cells : List RawCell} (hforward : Forward cells)
    {low n i : Nat} (bc : BocContext) (hlow : low ≤ i) (hi : i < n) {c : RawCell}
    (hc : cells[i]? = some c) :
    Digested sdk (digestCells sdk cells low n bc) (bc.cellDepth i) i c := by
  induction n generalizing bc with
  | zero => omega
  | succ n ih =>
    unfold digestCells
    rw [if_neg (by omega)]
    by_cases hn : i = n
    · subst hn
      simp only [hc]
      have hlater := hforward.later i c hc
      apply (digestCell_digested sdk bc i c hlater).congr (digestCells_sameCells ..)
      · exact digestCells_outside sdk cells _ (Or.inr (Nat.le_refl i))
      · intro r hr
        have := hlater r hr
        exact digestCells_outside sdk cells _ (by omega)
    · split
      next d _ =>
        rw [← (digestCell_of_ne sdk bc d hn).2]
        exact ih (digestCell sdk bc n d) (by omega)
      next => exact ih bc (by omega)

/-- The loop down to some cell: the checks of the cells it has passed, and what it
has left in the tables for the cells still to come. -/
theorem calcCellHashes_eq_ok {sdk : Sdk} {cells : List RawCell} (hforward : Forward cells)
    {low n : Nat} {bc result : BocContext} (hlow : low ≤ n)
    (hholds : ∀ i c, low ≤ i → cells[i]? = some c → ∃ rest, Holds (bc.cells i) c rest)
    (hn : n ≤ cells.length) (hbound : cells.length ≤ maxContractCellsCount) :
    calcCellHashes sdk n bc = .ok result ↔
      (∀ i c, low ≤ i → i < n → cells[i]? = some c → Hashable bc i c) ∧
        calcCellHashes sdk low (digestCells sdk cells low n bc) = .ok result := by
  induction n generalizing bc with
  | zero =>
    obtain rfl : low = 0 := by omega
    exact ⟨fun h => ⟨fun i c _ hi => absurd hi (by omega), h⟩, fun h => h.2⟩
  | succ n ih =>
    by_cases hnlow : n < low
    · obtain rfl : low = n + 1 := by omega
      unfold digestCells
      rw [if_pos hnlow]
      exact ⟨fun h => ⟨fun i c _ hi => absurd hi (by omega), h⟩, fun h => h.2⟩
    have hc : cells[n]? = some cells[n] := List.getElem?_eq_getElem (by omega)
    have hmem : cells[n] ∈ cells := List.getElem_mem _
    obtain ⟨rest, hrest⟩ := hholds n _ (by omega) hc
    have hsame := digestCell_sameCells sdk bc n cells[n]
    have hnext : ∀ i c, low ≤ i → cells[i]? = some c →
        ∃ rest, Holds ((digestCell sdk bc n cells[n]).cells i) c rest := by
      rw [hsame.cells]
      exact hholds
    unfold digestCells
    rw [if_neg hnlow]
    simp only [calcCellHashes, hc, bind_eq_ok,
      calcCellHash_eq_ok hrest (by omega : n < maxContractCellsCount)
        (hforward.pruned_size _ hmem) (hforward.refs_le _ hmem) (hforward.later n _ hc)]
    constructor
    · rintro ⟨_, ⟨hhashable, rfl⟩, h⟩
      rw [ih (by omega) hnext (by omega)] at h
      refine ⟨fun i c hi hin hci => ?_, h.2⟩
      by_cases heq : i = n
      · subst heq
        rw [hc, Option.some.injEq] at hci
        exact hci ▸ hhashable
      · rw [← hsame.hashable_iff]
        exact h.1 i c hi (by omega) hci
    · rintro ⟨hhashable, h⟩
      refine ⟨_, ⟨hhashable n _ (by omega) (by omega) hc, rfl⟩, ?_⟩
      rw [ih (by omega) hnext (by omega)]
      refine ⟨fun i c hi hin hci => ?_, h⟩
      rw [hsame.hashable_iff]
      exact hhashable i c hi (by omega) hci

/-- Hashing one cell leaves the other slots alone. -/
theorem calcCellHash_outside {sdk : Sdk} {cell : Cell} {c : RawCell} {rest : List UInt8} {i : Nat}
    {bc result : BocContext} (h : Holds cell c rest) (hi : i < maxContractCellsCount)
    (hrefs : c.refs.length ≤ maxReferencesCount) (hlater : ∀ r ∈ c.refs, i < r.toNat)
    (hresult : calcCellHash sdk cell i bc = .ok result) :
    SameCells bc result ∧ ∀ j, j ≠ i → SameSlot bc result j := by
  by_cases hp : c.Pruned
  · have hd1 : c.d1 = prunedBranchD1 := hp
    unfold calcCellHash at hresult
    rw [BocContext.slot_eq_ok.mpr ⟨hi, rfl⟩, ok_bind, h.getD1, ok_bind, if_pos hd1] at hresult
    simp only [bind_eq_ok, pure_eq_ok] at hresult
    obtain ⟨_, _, _, _, _, _, rfl⟩ := hresult
    exact ⟨⟨rfl, rfl, rfl, rfl⟩, fun j hj =>
      ⟨Function.update_of_ne hj _ _, Function.update_of_ne hj _ _⟩⟩
  · rw [calcCellHash_ordinary h hi hp hrefs hlater] at hresult
    obtain ⟨-, rfl⟩ := hresult
    exact ⟨digestCell_sameCells sdk bc i c, fun j hj => digestCell_of_ne sdk bc c hj⟩

/-- The tables after a list of cells was hashed, the first of them in the form
that it has in the context. A pruned first cell has no reference to follow. -/
structure HashedTables (sdk : Sdk) (cells : List RawCell) (root : RawCell)
    (bc hashed : BocContext) : Prop where
  same : SameCells bc hashed
  outside : ∀ j, cells.length ≤ j → SameSlot bc hashed j
  hashable : ∀ i c, 0 < i → cells[i]? = some c → Hashable bc i c
  digested : ∀ i c, 0 < i → cells[i]? = some c → Digested sdk hashed (bc.cellDepth i) i c
  root_hashable : ¬ root.Pruned → Hashable bc 0 root
  root_digested : ¬ root.Pruned → Digested sdk hashed (bc.cellDepth 0) 0 root

theorem calcCellHashes_tables {sdk : Sdk} {cells : List RawCell} {root : RawCell}
    {rest : List UInt8} {bc hashed : BocContext} (hforward : Forward cells)
    (hroot : Holds (bc.cells 0) root rest) (hrefs : root.refs.length ≤ maxReferencesCount)
    (hlater : ∀ r ∈ root.refs, 0 < r.toNat)
    (hholds : ∀ i c, 0 < i → cells[i]? = some c → ∃ rest, Holds (bc.cells i) c rest)
    (hpos : 0 < cells.length) (hbound : cells.length ≤ maxContractCellsCount)
    (h : calcCellHashes sdk cells.length bc = .ok hashed) :
    HashedTables sdk cells root bc hashed := by
  rw [calcCellHashes_eq_ok hforward hpos hholds (Nat.le_refl _) hbound] at h
  obtain ⟨hhashable, h⟩ := h
  have hsame := digestCells_sameCells sdk cells 1 cells.length bc
  simp only [calcCellHashes, bind_eq_ok, pure_eq_ok] at h
  obtain ⟨_, hfinal, rfl⟩ := h
  rw [hsame.cells] at hfinal
  obtain ⟨hframe, hother⟩ := calcCellHash_outside hroot (by decide) hrefs hlater hfinal
  refine ⟨hsame.trans hframe, ?_, fun i c hi hc => ?_, fun i c hi hc => ?_, fun hp => ?_,
    fun hp => ?_⟩
  · intro j hj
    exact (digestCells_outside sdk cells bc (Or.inr hj)).trans (hother j (by omega))
  · exact hhashable i c hi (List.getElem?_eq_some_iff.mp hc).1 hc
  · have hdigested := digestCells_digested sdk hforward bc hi
      (List.getElem?_eq_some_iff.mp hc).1 hc
    apply hdigested.congr hframe (hother i (by omega))
    intro r hr
    have := hforward.later i c hc r hr
    exact hother _ (by omega)
  · rw [calcCellHash_ordinary hroot (by decide) hp hrefs hlater] at hfinal
    exact (hsame.hashable_iff 0 root).mp hfinal.1
  · rw [calcCellHash_ordinary hroot (by decide) hp hrefs hlater] at hfinal
    obtain ⟨-, rfl⟩ := hfinal
    have hstart := (digestCells_outside sdk cells bc
      (show 0 < 1 ∨ cells.length ≤ 0 from Or.inl (by decide))).2
    rw [← hstart]
    exact digestCell_digested sdk _ 0 root hlater

end EverscaleLedger.Properties
