import EverscaleLedger.Properties.Preparation

/-! Which received cells the decoders take bits from, as a property of the cells
alone, and which flow and strings come out of them. -/
namespace EverscaleLedger.Properties

open Library Source Slice

/-- The function that a contract message calls, by the header in its root cell. -/
def functionOf (root : RawCell) : Option ContractFunction :=
  match deserializeContractHeader root.slice with
  | .ok (functionId, _) => ContractFunction.ofId functionId
  | .error _ => none

/-- The cell of the parameters: the older contract wallets confirm in the root. -/
def giftIndexOf (family : WalletFamily) (root : RawCell) : Nat :=
  if family = .contract ∧ functionOf root = some .confirmTransaction then rootCellIndex
  else giftCellIndex

def bodyCellIndex : Nat := giftCellIndex + 1

/-- Whether bits of the gift cell are decoded. -/
def ReadsGift (family : WalletFamily) (root : RawCell) : Prop :=
  family = .walletV3 ∨ functionOf root ≠ some .deployTransaction

/-- Whether bits of the body cell are decoded. -/
def ReadsBody (family : WalletFamily) (gift body : RawCell) : Prop :=
  match family with
  | .walletV3 =>
      let bodyBit := headerEnd gift.slice 0 + 1
      (bitAt gift.slice bodyBit ≠ 0 ∨ gift.refs ≠ []) ∧
        ReadsRef (gift.data.length * 8 - (bodyBit + 1)) (body.data.length * 8)
          (intAt gift.slice (bodyBit + 1) 32)
  | .contract | .prefixedContract => gift.refs ≠ [] ∧ 32 ≤ body.data.length * 8

/-- Where the decoders were in the received cells when they succeeded. -/
structure DecodedFrom (family : WalletFamily) (cells : List RawCell) (root gift : RawCell)
    (d : Decoded) : Prop where
  giftIndex_eq : d.giftIndex = giftIndexOf family root
  gift_eq : cells[d.giftIndex]? = some gift
  gift_read : 0 < d.giftSlice.dataWindowStart ↔ ReadsGift family root
  body_read : (∃ slice, d.bodySlice = some slice ∧ 0 < slice.dataWindowStart) ↔
    ∃ body, cells[bodyCellIndex]? = some body ∧ ReadsBody family gift body

/-! How many bits the fields of each cell take. -/

def rootFieldBits (family : WalletFamily) (root : RawCell) : Nat :=
  match family with
  | .walletV3 => 104
  | .contract | .prefixedContract => callHeaderBits root.slice

/-- Whether the gift of a `WALLET_V3` is searched for a token body. -/
def HasTokenBody (gift : RawCell) : Prop :=
  bitAt gift.slice (headerEnd gift.slice 0 + 1) ≠ 0 ∨ gift.refs ≠ []

instance (gift : RawCell) : Decidable (HasTokenBody gift) := inferInstanceAs (Decidable (_ ∨ _))

/-- The gift behind its header, the state bit and the body bit. -/
def behindHeader (gift : RawCell) : SliceData := movedTo gift.slice (headerEnd gift.slice 0 + 2)

def giftFieldBits (family : WalletFamily) (root gift : RawCell) : Nat :=
  match family with
  | .walletV3 =>
      headerEnd gift.slice 0 + 2 + if HasTokenBody gift then tokenHere (behindHeader gift) else 0
  | .contract | .prefixedContract =>
      (if giftIndexOf family root = rootCellIndex then callHeaderBits root.slice else 0) +
        match functionOf root with
        | some function => paramsBits gift.slice function
        | none => 0

def bodyFieldBits (family : WalletFamily) (gift body : RawCell) : Nat :=
  match family with
  | .walletV3 => if HasTokenBody gift then tokenBehind (behindHeader gift) body.slice else 0
  | .contract | .prefixedContract => if gift.refs ≠ [] then tokenAlone body.slice else 0

/-- How far the decoders came in the body cell. -/
def bodyEnd (d : Decoded) : Nat :=
  match d.bodySlice with
  | some slice => slice.dataWindowStart
  | none => 0

/-- The decoders have taken all fields, and no more. -/
structure FieldsRead (family : WalletFamily) (cells : List RawCell) (root gift : RawCell)
    (d : Decoded) : Prop where
  gift_end : d.giftSlice.dataWindowStart = giftFieldBits family root gift
  body_end : ∀ body, cells[bodyCellIndex]? = some body → bodyEnd d = bodyFieldBits family gift body
  body_exists : d.bodySlice ≠ none → ∃ body, cells[bodyCellIndex]? = some body

/-- Whether a contract message has a gift body, which is a function call of its own. -/
def HasGiftBody (cells : List RawCell) (gift : RawCell) : Prop :=
  gift.refs ≠ [] ∧ ∃ body, cells[bodyCellIndex]? = some body ∧ body.data ≠ []

/-- The flow that a function of a contract wallet is for. -/
def flowOf : ContractFunction → Flow
  | .deployTransaction => .deploy
  | .sendTransaction | .submitTransaction => .transfer
  | .confirmTransaction => .confirm

theorem readsBody_walletV3_iff (gift body : RawCell) : ReadsBody .walletV3 gift body ↔
    HasTokenBody gift ∧ 0 < tokenBehind (behindHeader gift) body.slice := by
  rw [tokenBehind_pos_iff, idAt]
  simp only [ReadsBody, HasTokenBody, behindHeader, movedTo_start, movedTo_end, intAt_movedTo,
    SliceData.remainingBits, RawCell.slice, Nat.sub_zero, Nat.add_assoc, Nat.reduceAdd]

section

variable {parsed : BocContext} {cells : List RawCell}

theorem cellAt_ok {index : Nat} {cell : Cell} (hparsed : Parsed parsed cells)
    (h : cellAt parsed index = .ok cell) :
    ∃ c rest, cells[index]? = some c ∧ Holds cell c rest := by
  simp only [cellAt, bind_eq_ok, validate_eq_ok, pure_eq_ok] at h
  obtain ⟨_, hcount, rfl⟩ := h
  rw [hparsed.count] at hcount
  have hc : cells[index]? = some cells[index] := List.getElem?_eq_getElem hcount
  obtain ⟨rest, hrest⟩ := hparsed.holds index _ hc
  exact ⟨_, rest, hc, hrest⟩

theorem decodeWalletV3_ok {sdk : Sdk} {locals : Locals} {ctx : SignTransactionContext}
    {root : RawCell} {d : Decoded} (hparsed : Parsed parsed cells)
    (h : decodeWalletV3 sdk locals parsed root.slice ctx = .ok d) :
    ∃ gift, DecodedFrom .walletV3 cells root gift d ∧ FieldsRead .walletV3 cells root gift d ∧
      FlowShown d.flow d.display := by
  simp only [decodeWalletV3, bind_eq_ok, validate_eq_ok] at h
  obtain ⟨⟨flags, _⟩, hroot, giftCell, hgift, giftSlice, hslice, ⟨s1, shown⟩, hheader,
    ⟨stateInit, s2⟩, hstate, _, _, ⟨giftRefs, giftRefsCount⟩, hrefs, ⟨bodyBit, s3⟩, hbody, h⟩ := h
  obtain ⟨gift, rest, hgiftEq, hholds⟩ := cellAt_ok hparsed hgift
  obtain rfl := Except.ok.inj (hholds.fromCell.symm.trans hslice)
  obtain ⟨rfl, hamount, haddress⟩ := deserializeIntMessageHeader_ok hheader
  obtain ⟨rfl, -⟩ := getNextBit_ok hstate
  obtain ⟨hbehind, hbit⟩ := getNextBit_ok hbody
  obtain ⟨-, hcount⟩ := Prod.mk.inj (Except.ok.inj (hholds.getRefs.symm.trans hrefs))
  have hstart : gift.slice.dataWindowStart = 0 := rfl
  simp only [movedTo_start, movedTo_movedTo, bitAt_movedTo, hstart] at hbehind hbit
  obtain rfl : s3 = behindHeader gift := hbehind
  have hinsideIff : bodyBit ≠ 0 ∨ giftRefsCount ≠ 0 ↔ HasTokenBody gift := by
    rw [HasTokenBody, hbit, ← hcount, ne_eq, ne_eq, List.length_eq_zero_iff]
  simp only at h
  split at h
  next hinside =>
    rw [hinsideIff] at hinside
    simp only [bind_eq_ok, pure_eq_ok] at h
    obtain ⟨refCell, hrefCell, refSlice, hrefSlice, ⟨flow, source, display⟩, htoken, rfl⟩ := h
    obtain ⟨body, bodyRest, hbodyEq, hbodyHolds⟩ := cellAt_ok hparsed hrefCell
    obtain rfl := Except.ok.inj (hbodyHolds.fromCell.symm.trans hrefSlice)
    obtain ⟨hshown, hsource, hfinal⟩ := deserializeTokenBody_ref htoken
    have hend : (movedTo body.slice (body.slice.dataWindowStart +
        tokenBehind (behindHeader gift) body.slice)).dataWindowStart =
          tokenBehind (behindHeader gift) body.slice := Nat.zero_add _
    refine ⟨gift, ⟨rfl, hgiftEq, ⟨fun _ => Or.inl rfl, fun _ => ?_⟩, ?_⟩, ⟨?_, ?_, ?_⟩,
      hshown.shown hamount haddress⟩
    · rw [hsource]
      exact Nat.lt_of_lt_of_le (Nat.succ_pos _) (Nat.le_add_right ..)
    · constructor
      · rintro ⟨slice, hslice, hpos⟩
        obtain rfl := Option.some.inj (hfinal.symm.trans hslice)
        exact ⟨body, hbodyEq, (readsBody_walletV3_iff gift body).mpr ⟨hinside, hend ▸ hpos⟩⟩
      · rintro ⟨other, hother, hreads⟩
        obtain rfl := Option.some.inj (hbodyEq.symm.trans hother)
        refine ⟨_, hfinal, ?_⟩
        rw [hend]
        exact ((readsBody_walletV3_iff gift body).mp hreads).2
    · rw [hsource, giftFieldBits, if_pos hinside]
      rfl
    · intro other hother
      obtain rfl := Option.some.inj (hbodyEq.symm.trans hother)
      rw [bodyFieldBits, if_pos hinside, bodyEnd]
      simp only [hfinal, hend]
    · exact fun _ => ⟨body, hbodyEq⟩
  next hinside =>
    rw [hinsideIff] at hinside
    rw [pure_eq_ok] at h
    subst h
    refine ⟨gift, ⟨rfl, hgiftEq, ⟨fun _ => Or.inl rfl, fun _ => Nat.succ_pos _⟩, ?_⟩,
      ⟨?_, fun body _ => ?_, fun hsome => absurd rfl hsome⟩, hamount, haddress⟩
    · constructor
      · rintro ⟨slice, hslice, -⟩
        cases hslice
      · rintro ⟨other, -, hreads, -⟩
        exact absurd hreads hinside
    · rw [giftFieldBits, if_neg hinside]
      rfl
    · rw [bodyFieldBits, if_neg hinside]
      rfl

/-- The gift body, where there is one, decides flow and strings. -/
structure GiftBodyDecoded (cells : List RawCell) (gift : RawCell) (before after : Decoded) :
    Prop where
  giftIndex_eq : after.giftIndex = before.giftIndex
  giftSlice_eq : after.giftSlice = before.giftSlice
  body_read : (∃ slice, after.bodySlice = some slice ∧ 0 < slice.dataWindowStart) ↔
    ∃ body, cells[bodyCellIndex]? = some body ∧ gift.refs ≠ [] ∧ 32 ≤ body.data.length * 8
  with_body : HasGiftBody cells gift → TokenBodyShown after.flow before.display after.display
  without_body : ¬ HasGiftBody cells gift →
    after.flow = before.flow ∧ after.display = before.display

theorem decodeGiftBody_ok {sdk : Sdk} {locals : Locals} {ctx : SignTransactionContext}
    {giftCell : Cell} {gift : RawCell} {rest : List UInt8} {before after : Decoded}
    (hparsed : Parsed parsed cells) (hgift : Holds giftCell gift rest)
    (hnone : before.bodySlice = none)
    (h : decodeGiftBody sdk locals parsed giftCell ctx before = .ok after) :
    GiftBodyDecoded cells gift before after ∧
      (∀ body, cells[bodyCellIndex]? = some body →
        bodyEnd after = if gift.refs ≠ [] then tokenAlone body.slice else 0) ∧
      (after.bodySlice ≠ none → ∃ body, cells[bodyCellIndex]? = some body) := by
  simp only [decodeGiftBody, hgift.getRefs, ok_bind] at h
  split at h
  next hrefs =>
    rw [ne_eq, List.length_eq_zero_iff] at hrefs
    simp only [bind_eq_ok] at h
    obtain ⟨bodyCell, hbodyCell, bodySlice, hbodySlice, h⟩ := h
    obtain ⟨body, bodyRest, hbody, hholds⟩ := cellAt_ok hparsed hbodyCell
    obtain rfl := Except.ok.inj (hholds.fromCell.symm.trans hbodySlice)
    have hempty : body.slice.isEmpty = true ↔ body.data = [] := by
      rw [SliceData.isEmpty, decide_eq_true_iff, ← List.length_eq_zero_iff]
      simp only [RawCell.slice]
      omega
    split at h
    next hnil =>
      rw [hempty] at hnil
      rw [pure_eq_ok] at h
      subst h
      refine ⟨⟨rfl, rfl, ?_, ?_, fun _ => ⟨rfl, rfl⟩⟩, ?_, fun _ => ⟨body, hbody⟩⟩
      · constructor
        · rintro ⟨slice, hslice, hpos⟩
          cases hslice
          exact absurd hpos (Nat.lt_irrefl 0)
        · rintro ⟨other, hother, -, hlong⟩
          obtain rfl := Option.some.inj (hbody.symm.trans hother)
          rw [hnil, List.length_nil] at hlong
          omega
      · rintro ⟨-, other, hother, hdata⟩
        obtain rfl := Option.some.inj (hbody.symm.trans hother)
        exact absurd hnil hdata
      · intro other hother
        obtain rfl := Option.some.inj (hbody.symm.trans hother)
        have hshort : body.slice.remainingBits < 32 := by
          simp [SliceData.remainingBits, RawCell.slice, hnil]
        rw [if_pos hrefs, tokenAlone, if_pos hshort]
        rfl
    next hsome =>
      rw [hempty] at hsome
      simp only [bind_eq_ok, pure_eq_ok] at h
      obtain ⟨⟨flow, source, display⟩, htoken, rfl⟩ := h
      obtain ⟨hshown, hsource⟩ := deserializeTokenBody_alone htoken
      have hend : source.slice.dataWindowStart = tokenAlone body.slice := by
        rw [hsource]
        exact Nat.zero_add _
      have hread := tokenAlone_pos_iff body.slice
      rw [← hend] at hread
      refine ⟨⟨rfl, rfl, ?_, fun _ => hshown, fun hnot => absurd ⟨hrefs, body, hbody, hsome⟩ hnot⟩,
        ?_, fun _ => ⟨body, hbody⟩⟩
      · constructor
        · rintro ⟨slice, hslice, hpos⟩
          cases hslice
          exact ⟨body, hbody, hrefs, hread.mp hpos⟩
        · rintro ⟨other, hother, -, hlong⟩
          obtain rfl := Option.some.inj (hbody.symm.trans hother)
          exact ⟨source.slice, rfl, hread.mpr hlong⟩
      · intro other hother
        obtain rfl := Option.some.inj (hbody.symm.trans hother)
        rw [if_pos hrefs]
        exact hend
  next hrefs =>
    rw [ne_eq, not_not, List.length_eq_zero_iff] at hrefs
    rw [pure_eq_ok] at h
    subst h
    refine ⟨⟨rfl, rfl, ?_, fun hbody => absurd hrefs hbody.1, fun _ => ⟨rfl, rfl⟩⟩,
      fun body _ => ?_, fun hsome => absurd hnone hsome⟩
    · constructor
      · rintro ⟨slice, hslice, -⟩
        rw [hnone] at hslice
        cases hslice
      · rintro ⟨-, -, hne, -⟩
        exact absurd hrefs hne
    · rw [if_neg (not_not.mpr hrefs), bodyEnd, hnone]

/-- The flow and strings of a contract message: those of its function, unless a
gift body comes after it. -/
structure ContractDecoded (cells : List RawCell) (root gift : RawCell) (d : Decoded) : Prop where
  function : ∃ function before, functionOf root = some function ∧
    FlowShown (flowOf function) before ∧
    (HasGiftBody cells gift → TokenBodyShown d.flow before d.display) ∧
    (¬ HasGiftBody cells gift → d.flow = flowOf function ∧ d.display = before)

theorem contractDecoded {gift root : RawCell} {function : ContractFunction} {before d : Decoded}
    {start next : SliceData} (hfunction : functionOf root = some function)
    (hparams : ParamsRead function start next before.flow before.display)
    (hbody : GiftBodyDecoded cells gift before d) : ContractDecoded cells root gift d where
  function := by
    have hflow : before.flow = flowOf function := hparams.flow_eq
    refine ⟨function, before.display, hfunction, hflow ▸ hparams.shown, hbody.with_body, ?_⟩
    intro hnot
    obtain ⟨hsame, hdisplay⟩ := hbody.without_body hnot
    exact ⟨hsame.trans hflow, hdisplay⟩

theorem functionOf_eq {root : RawCell} {functionId : Nat} {next : SliceData}
    (h : deserializeContractHeader root.slice = .ok (functionId, next)) :
    functionOf root = ContractFunction.ofId functionId := by
  unfold functionOf
  rw [h]

/-- The contract decoders need a header in the root. -/
theorem decodePrefixedContract_data_ne {sdk : Sdk} {locals : Locals} {bc : BocContext}
    {root : RawCell} {wc : UInt8} {address : List UInt8} {ctx : SignTransactionContext}
    {d : Decoded}
    (h : decodePrefixedContract sdk locals bc root.slice wc address ctx = .ok d) :
    root.data ≠ [] := by
  simp only [decodePrefixedContract, bind_eq_ok] at h
  obtain ⟨⟨functionId, next⟩, hheader, -⟩ := h
  simp only [deserializeContractHeader, bind_eq_ok] at hheader
  obtain ⟨⟨present, s1⟩, h1, -⟩ := hheader
  simp only [SliceData.getNextBit, bind_eq_ok, pure_eq_ok, Prod.mk.injEq] at h1
  obtain ⟨_, _, s1', hmove, -⟩ := h1
  have hle := (moveBy_ok hmove).2
  intro hnil
  simp only [RawCell.slice, hnil, List.length_nil] at hle
  omega

/-- The parameters of a call that are in a cell of their own, and the gift body behind them. -/
theorem decoded_behind_root {sdk : Sdk} {locals : Locals} {ctx : SignTransactionContext}
    {family : WalletFamily} {root gift : RawCell} {giftCell : Cell} {rest : List UInt8}
    {function : ContractFunction} {flow : Flow} {display : Display} {next : SliceData} {d : Decoded}
    (hfamily : family = .contract ∨ family = .prefixedContract) (hparsed : Parsed parsed cells)
    (hgift : cells[giftCellIndex]? = some gift) (hholds : Holds giftCell gift rest)
    (hindex : giftIndexOf family root = giftCellIndex) (hfunction : functionOf root = some function)
    (hread : ParamsRead function gift.slice next flow display)
    (hnext : next = movedTo gift.slice (gift.slice.dataWindowStart + paramsBits gift.slice function))
    (h : decodeGiftBody sdk locals parsed giftCell ctx ⟨flow, display, giftCellIndex, next, none⟩ =
      .ok d) :
    DecodedFrom family cells root gift d ∧ FieldsRead family cells root gift d ∧
      ContractDecoded cells root gift d := by
  obtain ⟨hbody, hend, hexists⟩ := decodeGiftBody_ok hparsed hholds rfl h
  have hgiftEnd : next.dataWindowStart = paramsBits gift.slice function := by
    rw [hnext]
    exact Nat.zero_add _
  refine ⟨⟨?_, ?_, ?_, ?_⟩, ⟨?_, ?_, hexists⟩, contractDecoded hfunction hread hbody⟩
  · rw [hbody.giftIndex_eq, hindex]
  · rw [hbody.giftIndex_eq]
    exact hgift
  · rw [hbody.giftSlice_eq, hgiftEnd, paramsBits_pos_iff, ReadsGift, hfunction]
    obtain rfl | rfl := hfamily <;> simp
  · rw [hbody.body_read]
    obtain rfl | rfl := hfamily <;> rfl
  · have hbits : giftFieldBits family root gift = 0 + paramsBits gift.slice function := by
      obtain rfl | rfl := hfamily <;> rw [giftFieldBits, hindex, hfunction, if_neg (by decide)]
    rw [hbody.giftSlice_eq, hgiftEnd, hbits, Nat.zero_add]
  · obtain rfl | rfl := hfamily <;> exact hend

theorem decodePrefixedContract_ok {sdk : Sdk} {locals : Locals} {ctx : SignTransactionContext}
    {root : RawCell} {wc : UInt8} {address : List UInt8} {d : Decoded}
    (hparsed : Parsed parsed cells)
    (h : decodePrefixedContract sdk locals parsed root.slice wc address ctx = .ok d) :
    ∃ gift, DecodedFrom .prefixedContract cells root gift d ∧
      FieldsRead .prefixedContract cells root gift d ∧ ContractDecoded cells root gift d := by
  simp only [decodePrefixedContract, bind_eq_ok] at h
  obtain ⟨⟨functionId, _⟩, hheader, giftCell, hgiftCell, giftSlice, hslice,
    ⟨flow, next, display⟩, hparams, h⟩ := h
  obtain ⟨gift, rest, hgift, hholds⟩ := cellAt_ok hparsed hgiftCell
  obtain rfl := Except.ok.inj (hholds.fromCell.symm.trans hslice)
  obtain ⟨function, hfunction, hread, hnext⟩ := deserializeMultisigParams_ok hparams
  rw [← functionOf_eq hheader] at hfunction
  have hindex : giftIndexOf .prefixedContract root = giftCellIndex := if_neg (by simp)
  exact ⟨gift, decoded_behind_root (Or.inr rfl) hparsed hgift hholds hindex hfunction hread hnext h⟩

theorem decodeContract_ok {sdk : Sdk} {locals : Locals} {ctx : SignTransactionContext}
    {root : RawCell} {rest : List UInt8} {wc : UInt8} {address : List UInt8} {d : Decoded}
    (hparsed : Parsed parsed cells) (hroot : cells[rootCellIndex]? = some root)
    (hholds : Holds (parsed.cells rootCellIndex) root rest)
    (h : decodeContract sdk locals parsed (parsed.cells rootCellIndex) root.slice wc address ctx =
      .ok d) :
    ∃ gift, DecodedFrom .contract cells root gift d ∧ FieldsRead .contract cells root gift d ∧
      ContractDecoded cells root gift d := by
  simp only [decodeContract, bind_eq_ok, validate_eq_ok] at h
  obtain ⟨⟨functionId, rootSlice⟩, hheader, _, hcount, giftSlice, hslice,
    ⟨flow, next, display⟩, hparams, h⟩ := h
  simp only at hcount hslice hparams h
  obtain ⟨function, hfunction, hread, hnext⟩ := deserializeMultisigParams_ok hparams
  rw [hfunction] at hcount hslice h
  rw [← functionOf_eq hheader] at hfunction
  by_cases hsame : function = .confirmTransaction
  · -- the parameters follow the header in the root cell
    subst hsame
    simp only [decide_true, if_true] at hslice h
    cases hslice
    obtain ⟨hbody, hend, hexists⟩ := decodeGiftBody_ok hparsed hholds rfl h
    have hindex : giftIndexOf .contract root = rootCellIndex := if_pos ⟨rfl, hfunction⟩
    have hgiftEnd : next.dataWindowStart = callHeaderBits root.slice + transactionIdLength * 8 := by
      rw [hnext, deserializeContractHeader_ok hheader, movedTo_start, movedTo_start]
      exact congrArg (· + transactionIdLength * 8) (Nat.zero_add _)
    refine ⟨root, ⟨?_, ?_, ?_, ?_⟩, ⟨?_, hend, hexists⟩, contractDecoded hfunction hread hbody⟩
    · rw [hbody.giftIndex_eq, hindex]
    · rw [hbody.giftIndex_eq]
      exact hroot
    · rw [hbody.giftSlice_eq, hgiftEnd, ReadsGift, hfunction]
      simp [transactionIdLength]
    · rw [hbody.body_read]
      rfl
    · rw [hbody.giftSlice_eq, hgiftEnd, giftFieldBits, hindex, hfunction, if_pos rfl]
      rfl
  · have hsome : ¬ some function = some ContractFunction.confirmTransaction := by
      rwa [Option.some.injEq]
    simp only [decide_eq_false hsome, Bool.false_eq_true, if_false, false_or] at hcount hslice h
    have hgiftCell : cellAt parsed giftCellIndex = .ok (parsed.cells giftCellIndex) := by
      simp only [cellAt, bind_eq_ok, validate_eq_ok, pure_eq_ok]
      exact ⟨(), hcount, trivial⟩
    obtain ⟨gift, giftRest, hgift, hgiftHolds⟩ := cellAt_ok hparsed hgiftCell
    obtain rfl := Except.ok.inj (hgiftHolds.fromCell.symm.trans hslice)
    have hindex : giftIndexOf .contract root = giftCellIndex := by
      refine if_neg fun hboth => hsome ?_
      rw [← hfunction]
      exact hboth.2
    exact ⟨gift, decoded_behind_root (Or.inl rfl) hparsed hgift hgiftHolds hindex hfunction hread
      hnext h⟩

end

/-- What decides the flow and the strings, for each wallet family. -/
structure FlowDecided (family : WalletFamily) (cells : List RawCell) (root gift : RawCell)
    (d : Decoded) : Prop where
  walletV3 : family = .walletV3 → FlowShown d.flow d.display
  contract : family ≠ .walletV3 → ContractDecoded cells root gift d

/-- The decoders' account of the received cells, for any wallet family. -/
theorem Prepares.decodedFrom {sdk : Sdk} {locals : Locals} {request : SigningRequest}
    {src : ByteStream} {bc : BocContext} {reception : Reception src bc} {family : WalletFamily}
    {toHash : BocContext} {p : Prepared} {received : RawCell}
    (h : Prepares sdk locals request reception.parsed family received.slice toHash p)
    (hreceived : reception.cells[rootCellIndex]? = some received) :
    ∃ gift, DecodedFrom family reception.cells received gift p.decoded ∧
      FieldsRead family reception.cells received gift p.decoded ∧
      FlowDecided family reception.cells received gift p.decoded := by
  have hparsed := reception.parsed_cells
  have hdecode := h.decode
  cases family with
  | walletV3 =>
    obtain ⟨gift, hgift, hfields, hshown⟩ := decodeWalletV3_ok hparsed hdecode
    exact ⟨gift, hgift, hfields, fun _ => hshown, fun hne => absurd rfl hne⟩
  | contract =>
    obtain ⟨rest, hholds⟩ := hparsed.holds rootCellIndex _ hreceived
    obtain ⟨gift, hgift, hfields, hflow⟩ := decodeContract_ok hparsed hreceived hholds hdecode
    exact ⟨gift, hgift, hfields, nofun, fun _ => hflow⟩
  | prefixedContract =>
    obtain ⟨gift, hgift, hfields, hflow⟩ := decodePrefixedContract_ok hparsed hdecode
    exact ⟨gift, hgift, hfields, nofun, fun _ => hflow⟩

end EverscaleLedger.Properties
