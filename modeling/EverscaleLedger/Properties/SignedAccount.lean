import EverscaleLedger.Properties.BitReaders
import EverscaleLedger.Properties.Flows
import EverscaleLedger.Properties.PrefixedCell
import EverscaleLedger.Properties.SignedDisplay

/-! Wallets that sign over the account address. The prefix and the function that is called
can be read off the rewritten root, whatever bits of the received one are cut off. -/
namespace EverscaleLedger.Properties

open Library Source Slice

/-! The end of the data of a cell. -/

/-- From the length of its bits on, the data of a cell has a single one at most. -/
theorem RawCell.getElem?_data (c : RawCell) {i : Nat} (hi : i < (Bits.ofBytes c.data).length)
    (hpos : 0 < i) (hle : c.bits.length ≤ i) :
    (Bits.ofBytes c.data)[i]? = some (decide (i = c.bits.length)) := by
  obtain hbits | ⟨count, hdata⟩ | ⟨hnil, hzeros⟩ := c.bits_form
  · rw [hbits] at hle
    omega
  · rw [hdata, List.getElem?_append_right hle]
    obtain rfl | hlt := eq_or_lt_of_le hle
    · simp
    · rw [hdata, List.length_append, List.length_cons, List.length_replicate] at hi
      obtain ⟨k, hk⟩ : ∃ k, i - c.bits.length = k + 1 := ⟨i - c.bits.length - 1, by omega⟩
      rw [hk, List.getElem?_cons_succ, List.getElem?_replicate, if_pos (by omega),
        decide_eq_false (by omega)]
  · rw [List.getElem?_eq_getElem hi, hzeros _ (List.getElem_mem hi), hnil,
      decide_eq_false (by simpa using hpos.ne')]

/-- Two byte strings agree on the bits that both have. -/
def AgreeBits (a b : List UInt8) : Prop :=
  ∀ i, i < (Bits.ofBytes a).length → i < (Bits.ofBytes b).length →
    (Bits.ofBytes a)[i]? = (Bits.ofBytes b)[i]?

namespace PrefixedData

variable {a b rootA rootB : RawCell} {wcA wcB : UInt8} {addressA addressB : List UInt8}

/-- The prefix is kept as a whole. -/
theorem prefix_eq (ha : PrefixedData a rootA wcA addressA) (hb : PrefixedData b rootB wcB addressB)
    (haddressA : addressA.length = 32) (haddressB : addressB.length = 32)
    (hdata : rootA.data = rootB.data) :
    addressPrefix wcA addressA = addressPrefix wcB addressB := by
  have hlength : 267 ≤ 8 * rootA.data.length := by
    rw [ha.length]
    omega
  have hfront := congrArg (List.take 267) (congrArg Bits.ofBytes hdata)
  rw [ha.bits, hb.bits, ← hdata, List.take_take, List.take_take, Nat.min_eq_left hlength,
    List.append_assoc, List.append_assoc,
    List.take_left' (length_addressPrefix wcA haddressA),
    List.take_left' (length_addressPrefix wcB haddressB)] at hfront
  exact hfront

theorem getElem?_root (h : PrefixedData a rootA wcA addressA) (haddress : addressA.length = 32)
    {i : Nat} (hi : i < (Bits.ofBytes a.data).length) (hcut : i + 267 < 8 * rootA.data.length) :
    (Bits.ofBytes rootA.data)[i + 267]? = (Bits.ofBytes a.data)[i]? := by
  have hfront := length_addressPrefix wcA haddress
  rw [h.bits, List.getElem?_take_of_lt hcut, List.append_assoc,
    List.getElem?_append_right (by omega), List.getElem?_append_left (by omega), hfront,
    Nat.add_sub_cancel]

/-- What the prefixed data cuts off is at most the tag, and the second descriptor byte
tells whether it did. -/
theorem agreeBits (ha : PrefixedData a rootA wcA addressA)
    (hb : PrefixedData b rootB wcB addressB) (haddressA : addressA.length = 32)
    (haddressB : addressB.length = 32) (hd2 : rootA.d2 = rootB.d2)
    (hdata : rootA.data = rootB.data) : AgreeBits a.data b.data := by
  have hsizes := congrArg UInt8.toNat (ha.d2.symm.trans (hd2.trans hb.d2))
  rw [d2OfBitLen_toNat ha.length_le, d2OfBitLen_toNat hb.length_le] at hsizes
  have hlength := congrArg List.length hdata
  rw [ha.length, hb.length] at hlength
  intro i hia hib
  by_cases hcut : i + 267 < 8 * rootA.data.length
  · rw [← ha.getElem?_root haddressA hia hcut, ← hb.getElem?_root haddressB hib (hdata ▸ hcut), hdata]
  · rw [ha.length] at hcut
    rw [a.getElem?_data hia (by omega) (by omega), b.getElem?_data hib (by omega) (by omega),
      Option.some.injEq, decide_eq_decide]
    omega

end PrefixedData

theorem addressPrefix_inj {wcA wcB : UInt8} {addressA addressB : List UInt8}
    (h : addressPrefix wcA addressA = addressPrefix wcB addressB) :
    wcA = wcB ∧ addressA = addressB := by
  unfold addressPrefix at h
  simp only [List.append_assoc] at h
  obtain ⟨hwc, haddress⟩ := List.append_inj (List.append_cancel_left h)
    ((Bits.length_ofByte wcA).trans (Bits.length_ofByte wcB).symm)
  refine ⟨?_, Bits.ofBytes_inj haddress⟩
  rw [← Bits.toByte_ofByte wcA, hwc, Bits.toByte_ofByte]

/-! Readers on data that agree. -/

/-- Two slices at one position of data that agree. -/
structure ReadAlike (a b : SliceData) : Prop where
  soundA : Sound a
  soundB : Sound b
  start : a.dataWindowStart = b.dataWindowStart
  bits : AgreeBits a.data b.data

namespace ReadAlike

variable {a b : SliceData}

theorem bitsAt_eq (h : ReadAlike a b) {position count : Nat}
    (hendA : position + count ≤ a.dataWindowEnd) (hendB : position + count ≤ b.dataWindowEnd) :
    bitsAt a position count = bitsAt b position count := by
  have hA := h.soundA.window
  have hB := h.soundB.window
  apply List.ext_getElem?
  intro i
  unfold bitsAt Bits.window
  rw [List.getElem?_take, List.getElem?_take, List.getElem?_drop, List.getElem?_drop]
  split
  · exact h.bits _ (by rw [Bits.length_ofBytes]; omega) (by rw [Bits.length_ofBytes]; omega)
  · rfl

theorem moved (h : ReadAlike a b) (position : Nat) :
    ReadAlike (movedTo a position) (movedTo b position) :=
  ⟨h.soundA.moved position, h.soundB.moved position, rfl, h.bits⟩

theorem getNextInt {bits valueA valueB : Nat} {nextA nextB : SliceData} (h : ReadAlike a b)
    (hbits : bits ≤ 64) (hA : a.getNextInt bits = .ok (valueA, nextA))
    (hB : b.getNextInt bits = .ok (valueB, nextB)) :
    valueA = valueB ∧ ReadAlike nextA nextB := by
  have hendA := (getNextInt_ok hA).2.2
  have hendB := (getNextInt_ok hB).2.2
  rw [getNextInt_eq h.soundA hbits hendA] at hA
  rw [getNextInt_eq h.soundB hbits hendB] at hB
  obtain ⟨rfl, rfl⟩ := Prod.mk.inj (Except.ok.inj hA)
  obtain ⟨rfl, rfl⟩ := Prod.mk.inj (Except.ok.inj hB)
  rw [← h.start] at hendB ⊢
  exact ⟨congrArg Bits.number (h.bitsAt_eq hendA hendB), h.moved _⟩

theorem moveBy {offset : Nat} {nextA nextB : SliceData} (h : ReadAlike a b)
    (hA : a.moveBy offset = .ok nextA) (hB : b.moveBy offset = .ok nextB) :
    ReadAlike nextA nextB := by
  obtain ⟨rfl, -⟩ := moveBy_ok hA
  obtain ⟨rfl, -⟩ := moveBy_ok hB
  rw [← h.start]
  exact h.moved _

theorem getNextBit {valueA valueB : Nat} {nextA nextB : SliceData} (h : ReadAlike a b)
    (hA : a.getNextBit = .ok (valueA, nextA)) (hB : b.getNextBit = .ok (valueB, nextB)) :
    valueA = valueB ∧ ReadAlike nextA nextB := by
  have hend : ∀ {s next : SliceData} {value : Nat}, s.getNextBit = .ok (value, next) →
      s.dataWindowStart + 1 ≤ s.dataWindowEnd := by
    intro s next value hs
    simp only [SliceData.getNextBit, bind_eq_ok] at hs
    obtain ⟨_, -, _, hmove, -⟩ := hs
    exact (moveBy_ok hmove).2
  have hendA := hend hA
  have hendB := hend hB
  rw [getNextBit_eq h.soundA hendA] at hA
  rw [getNextBit_eq h.soundB hendB] at hB
  obtain ⟨rfl, rfl⟩ := Prod.mk.inj (Except.ok.inj hA)
  obtain ⟨rfl, rfl⟩ := Prod.mk.inj (Except.ok.inj hB)
  rw [← h.start] at hendB ⊢
  exact ⟨congrArg Bits.number (h.bitsAt_eq hendA hendB), h.moved _⟩

/-- The same function is called, when both headers can be read. -/
theorem deserializeContractHeader {idA idB : Nat} {nextA nextB : SliceData} (h : ReadAlike a b)
    (hA : Source.deserializeContractHeader a = .ok (idA, nextA))
    (hB : Source.deserializeContractHeader b = .ok (idB, nextB)) : idA = idB := by
  simp only [Source.deserializeContractHeader, bind_eq_ok] at hA hB
  obtain ⟨⟨present, a1⟩, ha1, a2, ha2, ⟨_, a3⟩, ha3, ⟨_, a4⟩, ha4, ha5⟩ := hA
  obtain ⟨⟨present', b1⟩, hb1, b2, hb2, ⟨_, b3⟩, hb3, ⟨_, b4⟩, hb4, hb5⟩ := hB
  obtain ⟨rfl, h1⟩ := h.getNextBit ha1 hb1
  have h2 : ReadAlike a2 b2 := by
    simp only at ha2 hb2
    split at ha2
    next hpresent =>
      rw [if_pos hpresent] at hb2
      exact h1.moveBy ha2 hb2
    next habsent =>
      rw [if_neg habsent] at hb2
      rw [← pure_eq_ok.mp ha2, ← pure_eq_ok.mp hb2]
      exact h1
  obtain ⟨-, h3⟩ := h2.getNextInt (by decide) ha3 hb3
  obtain ⟨-, h4⟩ := h3.getNextInt (by decide) ha4 hb4
  exact (h4.getNextInt (by decide) ha5 hb5).1

end ReadAlike

/-! The runs. -/

section

variable {sdk : Sdk} {locals : Locals} {request : SigningRequest} {src : ByteStream}
  {bc toHash : BocContext} {reception : Reception src bc} {family : WalletFamily}
  {rootSlice : SliceData} {received root : RawCell} {p : Prepared} {cells : List RawCell}

theorem SignedRoot.cells_eq (h : SignedRoot sdk reception family received root toHash p)
    (hcount : p.hashed.cellsCount = reception.cells.length) (hcells : Parsed p.hashed cells) :
    cells[rootCellIndex]? = some root ∧ ∀ i, 0 < i → cells[i]? = reception.cells[i]? := by
  have hlength : cells.length = reception.cells.length := hcells.count.symm.trans hcount
  constructor
  · have hpos : rootCellIndex < cells.length := by
      rw [hlength]
      exact (List.getElem?_eq_some_iff.mp h.received_eq).1
    obtain ⟨rest, hrest⟩ := hcells.holds _ _ (List.getElem?_eq_getElem hpos)
    obtain ⟨tail, htail⟩ := h.holds_root
    rw [List.getElem?_eq_getElem hpos, hrest.unique htail]
  · intro i hi
    by_cases hlt : i < cells.length
    · obtain ⟨rest, hrest⟩ := hcells.holds _ _ (List.getElem?_eq_getElem hlt)
      obtain ⟨tail, htail⟩ := h.holds i _ hi (List.getElem?_eq_getElem (hlength ▸ hlt))
      rw [List.getElem?_eq_getElem hlt, List.getElem?_eq_getElem (hlength ▸ hlt),
        hrest.unique htail]
    · rw [List.getElem?_eq_none (Nat.le_of_not_lt hlt),
        List.getElem?_eq_none (hlength ▸ Nat.le_of_not_lt hlt)]

/-- Only the older contract wallets decode parameters from the root. -/
theorem giftIndexOf_ne (h : family ≠ .contract) (root : RawCell) :
    giftIndexOf family root ≠ rootCellIndex := by
  rw [giftIndexOf, if_neg fun hboth => h hboth.1]
  exact giftCellIndex_ne

theorem Prepares.giftIndex_eq
    (h : Prepares sdk locals request reception.parsed family received.slice toHash p)
    (hreceived : reception.cells[rootCellIndex]? = some received) :
    p.decoded.giftIndex = giftIndexOf family received := by
  obtain ⟨gift, hdecoded, -⟩ := h.decodedFrom hreceived
  exact hdecoded.giftIndex_eq

theorem FirstReferences.gift_view {as bs : List RawCell} {d e : Decoded}
    (ha : FirstReferences as d) (hb : FirstReferences bs e) (hd : d.giftIndex ≠ rootCellIndex)
    (he : e.giftIndex ≠ rootCellIndex)
    (hbound : AgreeAlong as bs) :
    as[giftCellIndex]?.map RawCell.view = bs[giftCellIndex]?.map RawCell.view := by
  obtain ⟨c, hc, halong, hp⟩ := ha.gift hd
  obtain ⟨c', hc', halong', hp'⟩ := hb.gift he
  rw [hc, hc', Option.map_some, Option.map_some, hbound [0] c c' halong halong' hp hp']

/-- The path to the body goes through the gift. -/
theorem FirstReferences.body_path {cells : List RawCell} {d : Decoded}
    (h : FirstReferences cells d) (hindex : d.giftIndex = rootCellIndex ∨ d.giftIndex = giftCellIndex)
    (hbody : d.bodySlice ≠ none) : ∃ body : RawCell, cells[bodyCellIndex]? = some body ∧
      ¬ body.Pruned ∧
      cellAlong cells rootCellIndex (if d.giftIndex = rootCellIndex then [0] else [0, 0]) =
        some body := by
  obtain ⟨body, hcell, halong, hp⟩ := h.body hbody
  refine ⟨body, hcell, hp, ?_⟩
  obtain hroot | hgift := hindex
  · rw [if_pos hroot, ← halong, hroot]
  · have hne : d.giftIndex ≠ rootCellIndex := hgift.trans_ne giftCellIndex_ne
    obtain ⟨gift, hgiftCell, hgiftAlong, -⟩ := h.gift hne
    rw [if_neg hne, ← halong, hgift]
    simp only [cellAlong, Option.bind_eq_bind, Option.bind_eq_some_iff] at hgiftAlong
    obtain ⟨root, hrootCell, r, hr, hat⟩ := hgiftAlong
    simp only [cellAlong, hrootCell, hr, hat, hgiftCell, Option.bind_eq_bind, Option.bind_some]

theorem FirstReferences.body_view {as bs : List RawCell} {d e : Decoded}
    (ha : FirstReferences as d) (hb : FirstReferences bs e) (hsame : d.giftIndex = e.giftIndex)
    (hindex : d.giftIndex = rootCellIndex ∨ d.giftIndex = giftCellIndex)
    (hd : d.bodySlice ≠ none) (he : e.bodySlice ≠ none)
    (hbound : AgreeAlong as bs) :
    as[bodyCellIndex]?.map RawCell.view = bs[bodyCellIndex]?.map RawCell.view := by
  obtain ⟨c, hc, hp, halong⟩ := ha.body_path hindex hd
  obtain ⟨c', hc', hp', halong'⟩ := hb.body_path (hsame ▸ hindex) he
  rw [← hsame] at halong'
  rw [hc, hc', Option.map_some, Option.map_some, hbound _ c c' halong halong' hp hp']

end

/-- The account that a wallet signs for: a signature made for one workchain and address is
not one for another. -/
theorem signed_account_bound {sdk : Sdk} {localsA localsB : Locals}
    {requestA requestB : SigningRequest} {bcA bcB : BocContext} {srcA srcB : ByteStream}
    {p q : Prepared} {as bs : List RawCell}
    (hfamilyA : requestA.family = some .prefixedContract)
    (hfamilyB : requestB.family = some .prefixedContract)
    (haddressA : requestA.prependAddress.length = addressLength)
    (haddressB : requestB.prependAddress.length = addressLength)
    (hp : requestA.prepare sdk localsA bcA srcA = .ok p)
    (hq : requestB.prepare sdk localsB bcB srcB = .ok q)
    (hindexA : bcA.publicKeyCellIndex = 0) (hindexB : bcB.publicKeyCellIndex = 0)
    (has : Parsed p.hashed as) (hbs : Parsed q.hashed bs)
    (hrootA : ∀ root : RawCell, as[rootCellIndex]? = some root → ¬ root.Pruned)
    (hrootB : ∀ root : RawCell, bs[rootCellIndex]? = some root → ¬ root.Pruned)
    (h : p.toSign = q.toSign) :
    CellsCollide sdk p.hashed as q.hashed bs ∨
      toSignPrefix requestA.ctx = toSignPrefix requestB.ctx ∧ requestA.wc = requestB.wc ∧
        requestA.prependAddress = requestB.prependAddress := by
  obtain hcollide | ⟨hchain, hbound⟩ := signed_cells_bound hp hq hindexA hindexB has hbs h
  · exact Or.inl hcollide
  · obtain ⟨_, _, _, _, _, hparse, -⟩ := prepare_ok hp
    obtain ⟨_, _, _, _, _, hparse', -⟩ := prepare_ok hq
    obtain ⟨ra, -⟩ := exists_reception hparse
    obtain ⟨rb, -⟩ := exists_reception hparse'
    obtain ⟨receivedA, rootA, _, -, hpreparesA, hsignedA⟩ := ra.prepares hfamilyA hp
    obtain ⟨receivedB, rootB, _, -, hpreparesB, hsignedB⟩ := rb.prepares hfamilyB hq
    obtain ⟨hrootCellA, -⟩ := hsignedA.cells_eq hpreparesA.cellsCount_eq has
    obtain ⟨hrootCellB, -⟩ := hsignedB.cells_eq hpreparesB.cellsCount_eq hbs
    have hview := hbound [] rootA rootB hrootCellA hrootCellB (hrootA _ hrootCellA)
      (hrootB _ hrootCellB)
    obtain ⟨hwc, haddress⟩ := addressPrefix_inj
      ((hpreparesA.prefixedData hsignedA haddressA).prefix_eq
        (hpreparesB.prefixedData hsignedB haddressB) haddressA haddressB
        (RawCell.data_of_view hview))
    exact Or.inr ⟨hchain, hwc, haddress⟩

/-- The deployment with a cell behind it that nothing refers to. -/
def paddedDeploy : List RawCell := plainDeploy ++ [⟨0x00, 0x00, [], [], no_data, no_refs⟩]

/-- Another wallet type, which shows another address with other decimals. -/
def deployRequest : SigningRequest where
  ctx := { (plainRequest 7).ctx with chainId := [1, 2, 3, 4], decimals := 6 }
  wc := 0
  address := List.replicate addressLength 1
  prependAddress := List.replicate addressLength 0

theorem signed_account_bound_deploy :
    ∃ p q as bs, (plainRequest 1).prepare testSdk zeroLocals BocContext.zero
        (received (serialize plainHeader 0x02 plainDeploy)) = .ok p ∧
      deployRequest.prepare testSdk zeroLocals BocContext.zero
        (received (serialize plainHeader 0x03 paddedDeploy)) = .ok q ∧
      (CellsCollide testSdk p.hashed as q.hashed bs ∨
        toSignPrefix (plainRequest 1).ctx = toSignPrefix deployRequest.ctx ∧
          (plainRequest 1).wc = deployRequest.wc ∧
          (plainRequest 1).prependAddress = deployRequest.prependAddress) := by
  have hfamilyA : (plainRequest 1).family = some .prefixedContract := by decide
  have hfamilyB : deployRequest.family = some .prefixedContract := by decide
  obtain ⟨ra, rb, p, q, hra, hrb, hp, hq, hsign⟩ :=
    @exists_runs_of_cells (plainRequest 1) deployRequest 0x02 0x03 plainDeploy paddedDeploy
      (fun p q => p.toSign = q.toSign)
      (by decide) (by decide) (by decide) (by decide) (by decide) (by decide +kernel)
  obtain ⟨receivedA, rootA, _, hreceivedA, hpreparesA, hsignedA⟩ := ra.prepares hfamilyA hp
  obtain ⟨receivedB, rootB, _, hreceivedB, hpreparesB, hsignedB⟩ := rb.prepares hfamilyB hq
  have has := hpreparesA.parsed_hashed hsignedA
  have hbs := hpreparesB.parsed_hashed hsignedB
  have hrootA := (hsignedA.cells_eq hpreparesA.cellsCount_eq has).1
  have hrootB := (hsignedB.cells_eq hpreparesB.cellsCount_eq hbs).1
  rw [hra] at hreceivedA
  rw [hrb] at hreceivedB
  obtain rfl := Option.some.inj hreceivedA
  obtain rfl := Option.some.inj hreceivedB
  refine ⟨p, q, _, _, hp, hq, signed_account_bound hfamilyA hfamilyB rfl rfl hp hq rfl rfl has hbs
    (fun root hroot => ?_) (fun root hroot => ?_) hsign⟩
  · obtain rfl := Option.some.inj (hrootA.symm.trans hroot)
    rw [hsignedA.pruned_iff]
    decide
  · obtain rfl := Option.some.inj (hrootB.symm.trans hroot)
    rw [hsignedB.pruned_iff]
    decide

/-- What is shown for what is signed: flow, strings and the bits they were read from. -/
theorem signed_display_bound {sdk : Sdk} {locals : Locals} {request : SigningRequest}
    {bcA bcB : BocContext} {srcA srcB : ByteStream} {p q : Prepared} {as bs : List RawCell}
    (haddress : request.prependAddress.length = addressLength)
    (hp : request.prepare sdk locals bcA srcA = .ok p)
    (hq : request.prepare sdk locals bcB srcB = .ok q)
    (hindexA : bcA.publicKeyCellIndex = 0) (hindexB : bcB.publicKeyCellIndex = 0)
    (has : Parsed p.hashed as) (hbs : Parsed q.hashed bs)
    (hfirstA : FirstReferences as p.decoded) (hfirstB : FirstReferences bs q.decoded)
    (h : p.toSign = q.toSign) :
    CellsCollide sdk p.hashed as q.hashed bs ∨ p.decoded = q.decoded := by
  obtain hcollide | ⟨-, hbound⟩ := signed_cells_bound hp hq hindexA hindexB has hbs h
  · exact Or.inl hcollide
  · right
    obtain ⟨_, _, family, _, _, hparse, hfirst⟩ := prepare_ok hp
    obtain ⟨_, _, _, _, _, hparse', -⟩ := prepare_ok hq
    have hfamily : request.family = some family := hfirst.family_eq
    obtain ⟨ra, -⟩ := exists_reception hparse
    obtain ⟨rb, -⟩ := exists_reception hparse'
    obtain ⟨receivedA, rootA, _, hreceivedA, hpreparesA, hsignedA⟩ := ra.prepares hfamily hp
    obtain ⟨receivedB, rootB, _, hreceivedB, hpreparesB, hsignedB⟩ := rb.prepares hfamily hq
    obtain ⟨hrootCellA, hcellsA⟩ := hsignedA.cells_eq hpreparesA.cellsCount_eq has
    obtain ⟨hrootCellB, hcellsB⟩ := hsignedB.cells_eq hpreparesB.cellsCount_eq hbs
    have hview := hbound [] rootA rootB hrootCellA hrootCellB (hfirstA.root _ hrootCellA)
      (hfirstB.root _ hrootCellB)
    have hindexEqA := hpreparesA.giftIndex_eq hreceivedA
    have hindexEqB := hpreparesB.giftIndex_eq hreceivedB
    have hslice : family ≠ .prefixedContract → receivedA.slice = receivedB.slice := by
      intro hne
      rw [← hsignedA.unprefixed hne, ← hsignedB.unprefixed hne]
      exact RawCell.slice_of_view hview
    have hsame : giftIndexOf family receivedA = giftIndexOf family receivedB := by
      unfold giftIndexOf functionOf
      cases family with
      | walletV3 => simp
      | contract => rw [hslice (by decide)]
      | prefixedContract => simp
    have hbodyViews : p.decoded.bodySlice ≠ none → q.decoded.bodySlice ≠ none →
        ra.cells[bodyCellIndex]?.map RawCell.view = rb.cells[bodyCellIndex]?.map RawCell.view := by
      intro hd he
      rw [← hcellsA bodyCellIndex (by decide), ← hcellsB bodyCellIndex (by decide)]
      exact hfirstA.body_view hfirstB (hindexEqA.trans (hsame.trans hindexEqB.symm))
        (hindexEqA ▸ giftIndexOf_eq family receivedA) hd he hbound
    have hgiftViews : p.decoded.giftIndex ≠ rootCellIndex → q.decoded.giftIndex ≠ rootCellIndex →
        ra.cells[giftCellIndex]?.map RawCell.view = rb.cells[giftCellIndex]?.map RawCell.view := by
      intro hd he
      rw [← hcellsA giftCellIndex (by decide), ← hcellsB giftCellIndex (by decide)]
      exact hfirstA.gift_view hfirstB hd he hbound
    have hgiftBehind : family ≠ .contract →
        ra.cells[giftCellIndex]?.map RawCell.view = rb.cells[giftCellIndex]?.map RawCell.view :=
      fun hne => hgiftViews (hindexEqA.trans_ne (giftIndexOf_ne hne receivedA))
        (hindexEqB.trans_ne (giftIndexOf_ne hne receivedB))
    have hdecodeA := hpreparesA.decode
    have hdecodeB := hpreparesB.decode
    cases family with
    | walletV3 =>
      rw [← hslice (by decide)] at hdecodeB
      exact decodeWalletV3_same ra.parsed_cells rb.parsed_cells
        (hgiftBehind (by decide)) hbodyViews hdecodeA hdecodeB
    | contract =>
      obtain ⟨_, hholdsA⟩ := ra.parsed_cells.holds _ _ hreceivedA
      obtain ⟨_, hholdsB⟩ := rb.parsed_cells.holds _ _ hreceivedB
      rw [← hslice (by decide)] at hdecodeB
      rw [hsignedA.unprefixed (by decide), hsignedB.unprefixed (by decide)] at hview
      exact decodeContract_same ra.parsed_cells rb.parsed_cells hholdsA hholdsB hview hgiftViews
        hbodyViews hdecodeA hdecodeB
    | prefixedContract =>
      have hdataA := hpreparesA.prefixedData hsignedA haddress
      have hdataB := hpreparesB.prefixedData hsignedB haddress
      obtain ⟨-, hd2, hdata⟩ := RawCell.view_eq.mp hview
      have hreads : ReadAlike receivedA.slice receivedB.slice :=
        ⟨receivedA.slice_sound, receivedB.slice_sound, rfl,
          hdataA.agreeBits hdataB haddress haddress hd2 hdata⟩
      exact decodePrefixedContract_same ra.parsed_cells rb.parsed_cells
        (fun _ _ _ _ hA hB => hreads.deserializeContractHeader hA hB)
        (hgiftBehind (by decide)) hbodyViews hdecodeA hdecodeB

/-- The gift of the transfer is where its root refers to, whatever lies behind. -/
theorem firstReferences_transfer {rest : List RawCell} {d : Decoded} (hbody : d.bodySlice = none) :
    FirstReferences (attachedTransfer ++ rest) d where
  root root hroot := by
    obtain rfl := Option.some.inj hroot
    decide
  gift _ := ⟨transferGift 0x00 [] no_refs, rfl, rfl, by decide⟩
  body hne := absurd hbody hne

theorem signed_display_bound_padded :
    ∃ p q, (plainRequest 0).prepare testSdk zeroLocals BocContext.zero
        (received (serialize plainHeader 0x02 attachedTransfer)) = .ok p ∧
      (plainRequest 0).prepare testSdk zeroLocals BocContext.zero
        (received (serialize plainHeader 0x03 paddedTransfer)) = .ok q ∧
      (CellsCollide testSdk p.hashed attachedTransfer q.hashed paddedTransfer ∨
        p.decoded = q.decoded) := by
  obtain ⟨p, q, hp, hq, has, hbs, hsign, hbodyA, hbodyB⟩ := exists_padded_runs
  exact ⟨p, q, hp, hq, signed_display_bound rfl hp hq rfl rfl has hbs
    (@firstReferences_transfer [] _ hbodyA) (firstReferences_transfer hbodyB) hsign⟩

end EverscaleLedger.Properties
