import EverscaleLedger.Properties.SignedCells

/-! What a signature says about the screens. In a message whose decoded cells are each the
first one that their parent refers to, as every client builds it, the signed bytes leave one
choice for the flow and the strings. -/
namespace EverscaleLedger.Properties

open Library Source

/-- The decoded cells are ordinary, and the first reference of each leads to the next. -/
structure FirstReferences (cells : List RawCell) (d : Decoded) : Prop where
  root : ∀ root : RawCell, cells[rootCellIndex]? = some root → ¬ root.Pruned
  gift : d.giftIndex ≠ rootCellIndex → ∃ gift : RawCell, cells[giftCellIndex]? = some gift ∧
    cellAlong cells rootCellIndex [0] = some gift ∧ ¬ gift.Pruned
  body : d.bodySlice ≠ none → ∃ body : RawCell, cells[bodyCellIndex]? = some body ∧
    cellAlong cells d.giftIndex [0] = some body ∧ ¬ body.Pruned

theorem giftCellIndex_ne : giftCellIndex ≠ rootCellIndex := Nat.one_ne_zero

section

variable {sdk : Sdk} {locals : Locals} {ctx : SignTransactionContext} {a b : BocContext}
  {as bs : List RawCell} (ha : Parsed a as) (hb : Parsed b bs)

include ha hb

/-- Cells with one view are decoded from the same slice. -/
theorem cellAt_same {i : Nat} {cellA cellB : Cell}
    (hview : as[i]?.map RawCell.view = bs[i]?.map RawCell.view)
    (hcellA : cellAt a i = .ok cellA) (hcellB : cellAt b i = .ok cellB) :
    ∃ ca cb ra rb, Holds cellA ca ra ∧ Holds cellB cb rb ∧ ca.view = cb.view := by
  obtain ⟨ca, ra, hca, hra⟩ := cellAt_ok ha hcellA
  obtain ⟨cb, rb, hcb, hrb⟩ := cellAt_ok hb hcellB
  rw [hca, hcb] at hview
  exact ⟨ca, cb, ra, rb, hra, hrb, Option.some.inj hview⟩

theorem decodeGiftBody_same {giftA giftB : Cell} {ca cb : RawCell} {ra rb : List UInt8}
    (hca : Holds giftA ca ra) (hcb : Holds giftB cb rb) (hgift : ca.view = cb.view)
    {before d e : Decoded}
    (hbody : d.bodySlice ≠ none → e.bodySlice ≠ none →
      as[bodyCellIndex]?.map RawCell.view = bs[bodyCellIndex]?.map RawCell.view)
    (hd : decodeGiftBody sdk locals a giftA ctx before = .ok d)
    (he : decodeGiftBody sdk locals b giftB ctx before = .ok e) : d = e := by
  simp only [decodeGiftBody, hca.getRefs, ok_bind] at hd
  simp only [decodeGiftBody, hcb.getRefs, ok_bind, ← RawCell.refs_length_of_view hgift] at he
  split at hd
  next hrefs =>
    rw [if_pos hrefs] at he
    simp only [bind_eq_ok] at hd he
    obtain ⟨bodyA, hbodyA, sliceA, hsliceA, hd⟩ := hd
    obtain ⟨bodyB, hbodyB, sliceB, hsliceB, he⟩ := he
    have hsomeA : d.bodySlice ≠ none := by
      split at hd
      · rw [← pure_eq_ok.mp hd]
        exact Option.some_ne_none _
      · simp only [bind_eq_ok, pure_eq_ok] at hd
        obtain ⟨_, _, rfl⟩ := hd
        exact Option.some_ne_none _
    have hsomeB : e.bodySlice ≠ none := by
      split at he
      · rw [← pure_eq_ok.mp he]
        exact Option.some_ne_none _
      · simp only [bind_eq_ok, pure_eq_ok] at he
        obtain ⟨_, _, rfl⟩ := he
        exact Option.some_ne_none _
    obtain ⟨ba, bb, ta, tb, hba, hbb, hview⟩ := cellAt_same ha hb (hbody hsomeA hsomeB) hbodyA hbodyB
    rw [hba.fromCell] at hsliceA
    rw [hbb.fromCell, ← RawCell.slice_of_view hview] at hsliceB
    obtain rfl := Except.ok.inj (hsliceA.symm.trans hsliceB)
    exact Except.ok.inj (hd.symm.trans he)
  next hrefs =>
    rw [if_neg hrefs] at he
    exact Except.ok.inj (hd.symm.trans he)

theorem decodeWalletV3_same {rootSlice : SliceData} {d e : Decoded}
    (hgift : as[giftCellIndex]?.map RawCell.view = bs[giftCellIndex]?.map RawCell.view)
    (hbody : d.bodySlice ≠ none → e.bodySlice ≠ none →
      as[bodyCellIndex]?.map RawCell.view = bs[bodyCellIndex]?.map RawCell.view)
    (hd : decodeWalletV3 sdk locals a rootSlice ctx = .ok d)
    (he : decodeWalletV3 sdk locals b rootSlice ctx = .ok e) : d = e := by
  simp only [decodeWalletV3, bind_eq_ok] at hd he
  obtain ⟨flags, hflags, giftA, hgiftA, sliceA, hsliceA, hd⟩ := hd
  obtain ⟨flags', hflags', giftB, hgiftB, sliceB, hsliceB, he⟩ := he
  obtain rfl := Except.ok.inj (hflags.symm.trans hflags')
  obtain ⟨ga, gb, ta, tb, hga, hgb, hview⟩ := cellAt_same ha hb hgift hgiftA hgiftB
  rw [hga.fromCell] at hsliceA
  rw [hgb.fromCell, ← RawCell.slice_of_view hview] at hsliceB
  obtain rfl := Except.ok.inj (hsliceA.symm.trans hsliceB)
  obtain ⟨header, hheader, state, hstate, _, -, refsA, hrefsA, body, hbodyBit, hd⟩ := hd
  obtain ⟨header', hheader', state', hstate', _, -, refsB, hrefsB, body', hbodyBit', he⟩ := he
  obtain rfl := Except.ok.inj (hheader.symm.trans hheader')
  obtain rfl := Except.ok.inj (hstate.symm.trans hstate')
  obtain rfl := Except.ok.inj (hbodyBit.symm.trans hbodyBit')
  obtain rfl := Except.ok.inj (hga.getRefs.symm.trans hrefsA)
  obtain rfl := Except.ok.inj (hgb.getRefs.symm.trans hrefsB)
  rw [← RawCell.refs_length_of_view hview] at he
  split at hd
  next hcond =>
    rw [if_pos hcond] at he
    simp only [bind_eq_ok] at hd he
    simp only [pure_eq_ok] at hd he
    obtain ⟨bodyA, hbodyA, refA, hrefA, ⟨flowA, sourceA, displayA⟩, htokenA, rfl⟩ := hd
    obtain ⟨bodyB, hbodyB, refB, hrefB, ⟨flowB, sourceB, displayB⟩, htokenB, rfl⟩ := he
    have hsomeA := (deserializeTokenBody_ref htokenA).2.2
    have hsomeB := (deserializeTokenBody_ref htokenB).2.2
    have hsame := hbody (ne_of_eq_of_ne hsomeA (Option.some_ne_none _))
      (ne_of_eq_of_ne hsomeB (Option.some_ne_none _))
    obtain ⟨ba, bb, ta, tb, hba, hbb, hbodyView⟩ := cellAt_same ha hb hsame hbodyA hbodyB
    rw [hba.fromCell] at hrefA
    rw [hbb.fromCell, ← RawCell.slice_of_view hbodyView] at hrefB
    obtain rfl := Except.ok.inj (hrefA.symm.trans hrefB)
    cases Except.ok.inj (htokenA.symm.trans htokenB)
    rfl
  next hcond =>
    rw [if_neg hcond] at he
    exact Except.ok.inj (hd.symm.trans he)

theorem decodeContract_same {ca cb : RawCell} {ra rb : List UInt8}
    (hca : Holds (a.cells rootCellIndex) ca ra) (hcb : Holds (b.cells rootCellIndex) cb rb)
    (hroot : ca.view = cb.view) {rootSlice : SliceData} {wc : UInt8} {address : List UInt8}
    {d e : Decoded}
    (hgift : d.giftIndex ≠ rootCellIndex → e.giftIndex ≠ rootCellIndex →
      as[giftCellIndex]?.map RawCell.view = bs[giftCellIndex]?.map RawCell.view)
    (hbody : d.bodySlice ≠ none → e.bodySlice ≠ none →
      as[bodyCellIndex]?.map RawCell.view = bs[bodyCellIndex]?.map RawCell.view)
    (hd : decodeContract sdk locals a (a.cells rootCellIndex) rootSlice wc address ctx = .ok d)
    (he : decodeContract sdk locals b (b.cells rootCellIndex) rootSlice wc address ctx = .ok e) :
    d = e := by
  simp only [decodeContract, bind_eq_ok, validate_eq_ok] at hd he
  obtain ⟨⟨functionId, slice⟩, hheader, _, hcountA, giftA, hgiftA, ⟨flow, next, display⟩, hparams,
    hd⟩ := hd
  obtain ⟨⟨functionId', slice'⟩, hheader', _, hcountB, giftB, hgiftB, ⟨flow', next', display'⟩,
    hparams', he⟩ := he
  cases Except.ok.inj (hheader.symm.trans hheader')
  simp only at hcountA hcountB hgiftA hgiftB hparams hparams' hd he
  by_cases hsame : ContractFunction.ofId functionId = some .confirmTransaction
  · simp only [decide_eq_true hsame, if_true] at hgiftA hgiftB hd he
    cases Except.ok.inj (hgiftA.symm.trans hgiftB)
    cases Except.ok.inj (hparams.symm.trans hparams')
    exact decodeGiftBody_same ha hb hca hcb hroot hbody hd he
  · simp only [decide_eq_false hsame, Bool.false_eq_true, if_false, false_or] at hcountA hgiftA hd
    simp only [decide_eq_false hsame, Bool.false_eq_true, if_false, false_or] at hcountB hgiftB he
    have hcellA : cellAt a giftCellIndex = .ok (a.cells giftCellIndex) := by
      rw [cellAt, validate_of_true hcountA]
      rfl
    have hcellB : cellAt b giftCellIndex = .ok (b.cells giftCellIndex) := by
      rw [cellAt, validate_of_true hcountB]
      rfl
    obtain ⟨_, _, -, hholdsA⟩ := cellAt_ok ha hcellA
    obtain ⟨_, _, -, hholdsB⟩ := cellAt_ok hb hcellB
    have hindexA := (decodeGiftBody_ok ha hholdsA rfl hd).1.giftIndex_eq
    have hindexB := (decodeGiftBody_ok hb hholdsB rfl he).1.giftIndex_eq
    have hviews := hgift (hindexA.trans_ne giftCellIndex_ne) (hindexB.trans_ne giftCellIndex_ne)
    obtain ⟨ga, gb, ta, tb, hga, hgb, hview⟩ := cellAt_same ha hb hviews hcellA hcellB
    rw [hga.fromCell] at hgiftA
    rw [hgb.fromCell, ← RawCell.slice_of_view hview] at hgiftB
    cases Except.ok.inj (hgiftA.symm.trans hgiftB)
    cases Except.ok.inj (hparams.symm.trans hparams')
    exact decodeGiftBody_same ha hb hga hgb hview hbody hd he

theorem decodePrefixedContract_same {sliceA sliceB : SliceData} {wc : UInt8} {address : List UInt8}
    {d e : Decoded}
    (hfunction : ∀ idA nextA idB nextB, deserializeContractHeader sliceA = .ok (idA, nextA) →
      deserializeContractHeader sliceB = .ok (idB, nextB) → idA = idB)
    (hgift : as[giftCellIndex]?.map RawCell.view = bs[giftCellIndex]?.map RawCell.view)
    (hbody : d.bodySlice ≠ none → e.bodySlice ≠ none →
      as[bodyCellIndex]?.map RawCell.view = bs[bodyCellIndex]?.map RawCell.view)
    (hd : decodePrefixedContract sdk locals a sliceA wc address ctx = .ok d)
    (he : decodePrefixedContract sdk locals b sliceB wc address ctx = .ok e) : d = e := by
  simp only [decodePrefixedContract, bind_eq_ok] at hd he
  obtain ⟨⟨idA, nextA⟩, hheaderA, giftA, hgiftA, startA, hstartA, ⟨flow, next, display⟩, hparams,
    hd⟩ := hd
  obtain ⟨⟨idB, nextB⟩, hheaderB, giftB, hgiftB, startB, hstartB, ⟨flow', next', display'⟩,
    hparams', he⟩ := he
  obtain rfl := hfunction _ _ _ _ hheaderA hheaderB
  obtain ⟨ga, gb, ta, tb, hga, hgb, hview⟩ := cellAt_same ha hb hgift hgiftA hgiftB
  rw [hga.fromCell] at hstartA
  rw [hgb.fromCell, ← RawCell.slice_of_view hview] at hstartB
  obtain rfl := Except.ok.inj (hstartA.symm.trans hstartB)
  cases Except.ok.inj (hparams.symm.trans hparams')
  exact decodeGiftBody_same ha hb hga hgb hview hbody hd he

end

end EverscaleLedger.Properties
