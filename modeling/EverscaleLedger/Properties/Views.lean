import EverscaleLedger.Properties.DecodedCells

/-! What the decoders can tell of the cells in memory: descriptors and data of the
first three. Contexts that agree on these are decoded alike. -/
namespace EverscaleLedger.Properties

open Library Source

/-- A cell without its references and the level bits of its first descriptor byte. -/
def RawCell.view (c : RawCell) : Nat × UInt8 × List UInt8 :=
  (c.d1.toNat &&& 0b00011111, c.d2, c.data)

/-- Two lists of cells agree on the cells that are decoded. -/
def SameView (as bs : List RawCell) : Prop :=
  ∀ i ≤ bodyCellIndex, as[i]?.map RawCell.view = bs[i]?.map RawCell.view

theorem RawCell.refs_length_of_view {a b : RawCell} (h : a.view = b.view) :
    a.refs.length = b.refs.length := by
  have hflags : a.d1.toNat &&& 0b00011111 = b.d1.toNat &&& 0b00011111 := congrArg Prod.fst h
  have hcount : ∀ c : RawCell, c.refs.length = (c.d1.toNat &&& 0b00011111) &&& 7 := by
    intro c
    rw [c.refs_length, refsCountOf, Nat.and_assoc]
    rfl
  rw [hcount, hcount, hflags]

theorem RawCell.data_of_view {a b : RawCell} (h : a.view = b.view) : a.data = b.data :=
  congrArg (fun view => view.2.2) h

theorem RawCell.slice_of_view {a b : RawCell} (h : a.view = b.view) : a.slice = b.slice := by
  unfold slice
  rw [data_of_view h]

section

variable {a b : BocContext} {as bs : List RawCell} (ha : Parsed a as) (hb : Parsed b bs)

include ha hb

theorem count_of_view {i : Nat} (h : as[i]?.map RawCell.view = bs[i]?.map RawCell.view) :
    a.cellsCount > i ↔ b.cellsCount > i := by
  have hsome := congrArg Option.isSome h
  rw [Option.isSome_map, Option.isSome_map, Bool.eq_iff_iff] at hsome
  simp only [isSome_getElem?] at hsome
  rw [ha.count, hb.count]
  exact hsome

/-- Two cells in the same place of contexts that agree on it. -/
theorem holds_of_view {i : Nat} (h : as[i]?.map RawCell.view = bs[i]?.map RawCell.view)
    (hcount : a.cellsCount > i) :
    ∃ ca cb ra rb, Holds (a.cells i) ca ra ∧ Holds (b.cells i) cb rb ∧ ca.view = cb.view := by
  have hcount' := (count_of_view ha hb h).mp hcount
  rw [ha.count] at hcount
  rw [hb.count] at hcount'
  rw [List.getElem?_eq_getElem hcount, List.getElem?_eq_getElem hcount', Option.map_some,
    Option.map_some, Option.some.injEq] at h
  obtain ⟨ra, hra⟩ := ha.holds i _ (List.getElem?_eq_getElem hcount)
  obtain ⟨rb, hrb⟩ := hb.holds i _ (List.getElem?_eq_getElem hcount')
  exact ⟨_, _, ra, rb, hra, hrb, h⟩

theorem cellAt_congr {α : Type} {i : Nat}
    (h : as[i]?.map RawCell.view = bs[i]?.map RawCell.view) (f g : Cell → Outcome α)
    (hfg : ∀ ca cb ra rb, Holds (a.cells i) ca ra → Holds (b.cells i) cb rb → ca.view = cb.view →
      f (a.cells i) = g (b.cells i)) :
    (cellAt a i >>= f) = (cellAt b i >>= g) := by
  unfold cellAt
  by_cases hcount : a.cellsCount > i
  · obtain ⟨ca, cb, ra, rb, hca, hcb, hview⟩ := holds_of_view ha hb h hcount
    rw [validate_of_true hcount, validate_of_true ((count_of_view ha hb h).mp hcount)]
    exact hfg ca cb ra rb hca hcb hview
  · have hcount' := mt (count_of_view ha hb h).mpr hcount
    unfold validate require
    rw [if_neg hcount, if_neg hcount']
    rfl

variable (hview : SameView as bs) (sdk : Sdk) (locals : Locals) (ctx : SignTransactionContext)

include hview

theorem decodeWalletV3_congr (rootSlice : SliceData) :
    decodeWalletV3 sdk locals a rootSlice ctx = decodeWalletV3 sdk locals b rootSlice ctx := by
  apply bind_congr
  intro flags
  apply cellAt_congr ha hb (hview giftCellIndex (by decide)) _ _
  intro ca cb ra rb hca hcb hgift
  rw [hca.fromCell, hcb.fromCell, RawCell.slice_of_view hgift, hca.getRefs, hcb.getRefs,
    RawCell.refs_length_of_view hgift]
  refine bind_congr fun giftSlice => bind_congr fun header => bind_congr fun stateInit =>
    bind_congr fun _ => ?_
  simp only [ok_bind]
  apply bind_congr
  intro body
  split
  · refine cellAt_congr ha hb (hview (giftCellIndex + 1) (by decide)) _ _
      fun ca cb ra rb hca hcb hbody => ?_
    rw [hca.fromCell, hcb.fromCell, RawCell.slice_of_view hbody]
  · rfl

theorem decodeGiftBody_congr {giftA giftB : Cell} {ca cb : RawCell} {ra rb : List UInt8}
    (hca : Holds giftA ca ra) (hcb : Holds giftB cb rb) (hgift : ca.view = cb.view)
    (decoded : Decoded) :
    decodeGiftBody sdk locals a giftA ctx decoded = decodeGiftBody sdk locals b giftB ctx decoded := by
  unfold decodeGiftBody
  rw [hca.getRefs, hcb.getRefs, RawCell.refs_length_of_view hgift]
  simp only [ok_bind]
  split
  · refine cellAt_congr ha hb (hview (giftCellIndex + 1) (by decide)) _ _
      fun ca cb ra rb hca hcb hbody => ?_
    rw [hca.fromCell, hcb.fromCell, RawCell.slice_of_view hbody]
  · rfl

theorem decodePrefixedContract_congr (rootSlice : SliceData) (wc : UInt8) (address : List UInt8) :
    decodePrefixedContract sdk locals a rootSlice wc address ctx =
      decodePrefixedContract sdk locals b rootSlice wc address ctx := by
  apply bind_congr
  intro header
  apply cellAt_congr ha hb (hview giftCellIndex (by decide)) _ _
  intro ca cb ra rb hca hcb hgift
  rw [hca.fromCell, hcb.fromCell, RawCell.slice_of_view hgift]
  apply bind_congr
  intro giftSlice
  apply bind_congr
  intro params
  exact decodeGiftBody_congr ha hb hview sdk locals ctx hca hcb hgift _

theorem decodeContract_congr {ca cb : RawCell} {ra rb : List UInt8}
    (hca : Holds (a.cells rootCellIndex) ca ra) (hcb : Holds (b.cells rootCellIndex) cb rb)
    (hroot : ca.view = cb.view) (rootSlice : SliceData) (wc : UInt8) (address : List UInt8) :
    decodeContract sdk locals a (a.cells rootCellIndex) rootSlice wc address ctx =
      decodeContract sdk locals b (b.cells rootCellIndex) rootSlice wc address ctx := by
  have hcount := count_of_view ha hb (hview giftCellIndex (by decide))
  apply bind_congr
  intro header
  by_cases hsame : ContractFunction.ofId header.1 = some .confirmTransaction
  · simp only [hsame, decide_true, if_true, true_or]
    apply bind_congr
    intro _
    apply bind_congr
    intro giftSlice
    apply bind_congr
    intro params
    exact decodeGiftBody_congr ha hb hview sdk locals ctx hca hcb hroot _
  · simp only [hsame, decide_false, Bool.false_eq_true, if_false, false_or]
    by_cases hgift : a.cellsCount > giftCellIndex
    · obtain ⟨ga, gb, rga, rgb, hga, hgb, hgiftView⟩ :=
        holds_of_view ha hb (hview giftCellIndex (by decide)) hgift
      rw [validate_of_true hgift, validate_of_true (hcount.mp hgift), ok_bind, ok_bind,
        hga.fromCell, hgb.fromCell, RawCell.slice_of_view hgiftView]
      apply bind_congr
      intro giftSlice
      apply bind_congr
      intro params
      exact decodeGiftBody_congr ha hb hview sdk locals ctx hga hgb hgiftView _
    · unfold validate require
      rw [if_neg hgift, if_neg (mt hcount.mpr hgift)]
      rfl

/-- The decoders of every wallet family. -/
theorem decodeFor_congr (request : SigningRequest) {ca cb : RawCell} {ra rb : List UInt8}
    (hca : Holds (a.cells rootCellIndex) ca ra) (hcb : Holds (b.cells rootCellIndex) cb rb)
    (hroot : ca.view = cb.view) (family : WalletFamily) :
    decodeFor sdk locals request a ca.slice family = decodeFor sdk locals request b cb.slice family := by
  rw [RawCell.slice_of_view hroot]
  cases family with
  | walletV3 => exact decodeWalletV3_congr ha hb hview sdk locals request.ctx _
  | contract =>
    exact decodeContract_congr ha hb hview sdk locals request.ctx hca hcb hroot _ request.wc
      request.address
  | prefixedContract =>
    exact decodePrefixedContract_congr ha hb hview sdk locals request.ctx _ request.wc
      request.address

end

end EverscaleLedger.Properties
