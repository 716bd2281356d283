import EverscaleLedger.Properties.HonestTransfer
import EverscaleLedger.Properties.TokenGrammar

/-! The messages that a wallet signs, as values, with the cells that encode them and the
screen that each of them is due. The decoders take exactly these cells. -/
namespace EverscaleLedger.Properties

open Library Source Slice

/-- A message of `WALLET_V3`: the internal message that it sends, and the body of it. -/
structure WalletV3Message where
  expireAt : UInt32
  seqno : UInt32
  flags : UInt8
  header : MessageHeader
  bodyBit : Bool
  body : MessageBody

/-- A call of a contract wallet, with the body of the internal message that it sends. -/
structure ContractMessage where
  header : CallHeader
  id : UInt32
  arguments : CallArguments
  id_function : ContractFunction.ofId id.toNat = some arguments.function
  body : MessageBody

inductive WalletMessage where
  | gift (message : WalletV3Message)
  | call (message : ContractMessage)

/-- The body behind an internal message, or in the third cell. -/
def GiftBody (cells : List RawCell) (gift : RawCell) (bodyBit : Bool) (rest : List Bool)
    (body : MessageBody) : Prop :=
  if bodyBit = false ∧ gift.refs = [] then body = .absent
  else ∃ cell, cells[giftCellIndex + 1]? = some cell ∧
    body.CarriedBy (.front rest (Bits.ofBytes cell.data))

/-- The body of a call is in the third cell, if there is a reference behind the arguments. -/
def CallBody (cells : List RawCell) (arguments : RawCell) (body : MessageBody) : Prop :=
  if arguments.refs = [] then body = .absent
  else ∃ cell, cells[giftCellIndex + 1]? = some cell ∧
    if cell.data = [] then body = .absent
    else body.CarriedBy (.only (Bits.ofBytes cell.data))

namespace WalletV3Message

def EncodedBy (cells : List RawCell) (message : WalletV3Message) : Prop :=
  ∃ root gift rest, cells[rootCellIndex]? = some root ∧ cells[giftCellIndex]? = some gift ∧
    Bits.ofBytes root.data = walletV3Bits message.expireAt message.seqno message.flags ∧
    Bits.ofBytes gift.data = message.header.bits ++ (false :: message.bodyBit :: rest) ∧
    GiftBody cells gift message.bodyBit rest message.body

def shown (sdk : Sdk) (locals : Locals) (ctx : SignTransactionContext) (message : WalletV3Message) :
    Outcome (Flow × Display) := do
  let display ← message.header.shown sdk locals message.flags.toNat ctx Display.untouched
  message.body.shown sdk locals ctx .transfer display

end WalletV3Message

namespace ContractMessage

/-- The older contract wallets have the id of a transaction that is confirmed in the root. -/
def InRoot (family : WalletFamily) (message : ContractMessage) : Prop :=
  family = .contract ∧ message.arguments.function = .confirmTransaction

instance (family : WalletFamily) (message : ContractMessage) : Decidable (message.InRoot family) :=
  inferInstanceAs (Decidable (_ ∧ _))

def EncodedBy (family : WalletFamily) (cells : List RawCell) (message : ContractMessage) : Prop :=
  ∃ root rest, cells[rootCellIndex]? = some root ∧
    Bits.ofBytes root.data = message.header.bits message.id.toNat ++ rest ∧
    if message.InRoot family then
      ∃ behind, rest = message.arguments.bits ++ behind ∧ CallBody cells root message.body
    else
      ∃ arguments behind, cells[giftCellIndex]? = some arguments ∧
        Bits.ofBytes arguments.data = message.arguments.bits ++ behind ∧
        CallBody cells arguments message.body

def shown (sdk : Sdk) (locals : Locals) (request : SigningRequest) (message : ContractMessage) :
    Outcome (Flow × Display) := do
  let called ← message.arguments.shown sdk locals request.wc request.address request.ctx
  message.body.shown sdk locals request.ctx called.1 called.2

end ContractMessage

namespace WalletMessage

def EncodedBy (family : WalletFamily) (cells : List RawCell) : WalletMessage → Prop
  | gift message => family = .walletV3 ∧ message.EncodedBy cells
  | call message => family ≠ .walletV3 ∧ message.EncodedBy family cells

/-- The screen of a message. -/
def shown (sdk : Sdk) (locals : Locals) (request : SigningRequest) :
    WalletMessage → Outcome (Flow × Display)
  | gift message => message.shown sdk locals request.ctx
  | call message => message.shown sdk locals request

end WalletMessage

/-! Decoding. -/

section

variable {sdk : Sdk} {locals : Locals} {parsed : BocContext} {cells : List RawCell}
  {ctx : SignTransactionContext} {request : SigningRequest} {root : RawCell} {flow : Flow}
  {display : Display}

theorem Parsed.of_cellAt (h : Parsed parsed cells) {i : Nat} {cell : Cell}
    (hread : Source.cellAt parsed i = .ok cell) :
    ∃ c, cells[i]? = some c ∧ SliceData.fromCell cell = .ok c.slice ∧ cell = parsed.cells i := by
  simp only [Source.cellAt, bind_eq_ok, validate_eq_ok, pure_eq_ok] at hread
  obtain ⟨_, hlt, rfl⟩ := hread
  rw [h.count] at hlt
  obtain ⟨rest, hholds⟩ := h.holds i _ (List.getElem?_eq_getElem hlt)
  exact ⟨_, List.getElem?_eq_getElem hlt, hholds.fromCell, rfl⟩

theorem RawCell.slice_isEmpty (c : RawCell) : c.slice.isEmpty = true ↔ c.data = [] := by
  simp [SliceData.isEmpty, RawCell.slice, List.length_eq_zero_iff]

/-- The body of a call, and what it makes of what was decoded. -/
theorem CallBody.decodes {arguments : RawCell} {body : MessageBody} {cell : Cell}
    {rest : List UInt8} (hparsed : Parsed parsed cells) (hcell : Holds cell arguments rest)
    (hbody : CallBody cells arguments body) {decoded : Decoded}
    (hshown : body.shown sdk locals ctx decoded.flow decoded.display = .ok (flow, display)) :
    ∃ d, decodeGiftBody sdk locals parsed cell ctx decoded = .ok d ∧ d.flow = flow ∧
      d.display = display := by
  unfold CallBody at hbody
  simp only [decodeGiftBody, hcell.getRefs, ok_bind]
  by_cases hrefs : arguments.refs = []
  · rw [if_pos hrefs] at hbody
    subst hbody
    obtain ⟨rfl, rfl⟩ := Prod.mk.inj (Except.ok.inj hshown)
    rw [if_neg (by simp [hrefs])]
    exact ⟨_, rfl, rfl, rfl⟩
  · rw [if_neg hrefs] at hbody
    obtain ⟨c, hc, hbody⟩ := hbody
    obtain ⟨_, hat, hholds⟩ := hparsed.cellAt hc
    rw [if_pos (by simpa using hrefs), hat]
    simp only [ok_bind, hholds.fromCell]
    by_cases hdata : c.data = []
    · rw [if_pos hdata] at hbody
      subst hbody
      obtain ⟨rfl, rfl⟩ := Prod.mk.inj (Except.ok.inj hshown)
      rw [if_pos (c.slice_isEmpty.mpr hdata)]
      exact ⟨_, rfl, rfl, rfl⟩
    · rw [if_neg hdata] at hbody
      rw [if_neg (fun hempty => hdata (c.slice_isEmpty.mp hempty))]
      obtain ⟨final, hread⟩ := MessageBody.decodes (.only c.unread) rfl hbody hshown
      rw [hread]
      exact ⟨_, rfl, rfl, rfl⟩

theorem of_decodeGiftBody {arguments : RawCell} {cell : Cell} {rest : List UInt8}
    (hparsed : Parsed parsed cells) (hcell : Holds cell arguments rest) {decoded d : Decoded}
    (hread : decodeGiftBody sdk locals parsed cell ctx decoded = .ok d) :
    ∃ body : MessageBody, CallBody cells arguments body ∧
      body.shown sdk locals ctx decoded.flow decoded.display = .ok (d.flow, d.display) := by
  unfold CallBody
  simp only [decodeGiftBody, hcell.getRefs, ok_bind] at hread
  by_cases hrefs : arguments.refs = []
  · rw [if_neg (by simp [hrefs])] at hread
    obtain rfl := pure_eq_ok.mp hread
    exact ⟨.absent, by rw [if_pos hrefs], rfl⟩
  · rw [if_pos (by simpa using hrefs)] at hread
    obtain ⟨bodyCell, hat, hread⟩ := bind_eq_ok.mp hread
    obtain ⟨c, hc, hslice, rfl⟩ := hparsed.of_cellAt hat
    rw [hslice, ok_bind] at hread
    simp only [if_neg hrefs]
    by_cases hdata : c.data = []
    · rw [if_pos (c.slice_isEmpty.mpr hdata)] at hread
      obtain rfl := pure_eq_ok.mp hread
      exact ⟨.absent, ⟨c, hc, by rw [if_pos hdata]⟩, rfl⟩
    · rw [if_neg (fun hempty => hdata (c.slice_isEmpty.mp hempty))] at hread
      obtain ⟨⟨flow, source, display⟩, hbody, hread⟩ := bind_eq_ok.mp hread
      obtain rfl := pure_eq_ok.mp hread
      obtain ⟨body, hcarried, hshown⟩ :=
        (SuppliedBy.only c.unread).of_deserializeTokenBody rfl hbody
      exact ⟨body, ⟨c, hc, by rwa [if_neg hdata]⟩, hshown _⟩

theorem Parsed.fromCell (h : Parsed parsed cells) {i : Nat} {c : RawCell} (hc : cells[i]? = some c) :
    SliceData.fromCell (parsed.cells i) = .ok c.slice := by
  obtain ⟨_, hholds⟩ := h.holds i c hc
  exact hholds.fromCell

namespace WalletV3Message

variable {message : WalletV3Message}

theorem decodes (hparsed : Parsed parsed cells) (hroot : cells[rootCellIndex]? = some root)
    (hencoded : message.EncodedBy cells)
    (hshown : message.shown sdk locals ctx = .ok (flow, display)) :
    ∃ d, decodeWalletV3 sdk locals parsed root.slice ctx = .ok d ∧ d.flow = flow ∧
      d.display = display := by
  obtain ⟨root', gift, rest, hroot', hgift, hbits, hgiftBits, hbody⟩ := hencoded
  rw [hroot] at hroot'
  obtain rfl := Option.some.inj hroot'
  obtain ⟨display', hheader, hshown⟩ := bind_eq_ok.mp hshown
  obtain ⟨_, h1⟩ := (hbits ▸ root.unread).deserializeWalletV3
  obtain ⟨_, hat, hholds⟩ := hparsed.cellAt hgift
  obtain ⟨s2, h2, hs2⟩ := MessageHeader.decodes (hgiftBits ▸ gift.unread) hheader
  obtain ⟨s3, h3, hs3⟩ := hs2.getNextBit
  obtain ⟨s4, h4, hs4⟩ := hs3.getNextBit
  simp only [decodeWalletV3, h1, hat, ok_bind, hholds.fromCell, h2, h3, hholds.getRefs, h4,
    Bool.toNat_false, validate_of_true (show True from trivial)]
  unfold GiftBody at hbody
  by_cases hnone : message.bodyBit = false ∧ gift.refs = []
  · rw [if_pos hnone] at hbody
    rw [hbody] at hshown
    obtain ⟨rfl, rfl⟩ := Prod.mk.inj (Except.ok.inj hshown)
    rw [if_neg (by simp [hnone])]
    exact ⟨_, rfl, rfl, rfl⟩
  · rw [if_neg hnone] at hbody
    obtain ⟨c, hc, hcarried⟩ := hbody
    obtain ⟨_, hat', hholds'⟩ := hparsed.cellAt hc
    have hlooked : message.bodyBit.toNat ≠ 0 ∨ gift.refs.length ≠ 0 := by
      rcases hbit : message.bodyBit with _ | _
      · exact Or.inr fun hlength => hnone ⟨hbit, List.eq_nil_of_length_eq_zero hlength⟩
      · exact Or.inl Nat.one_ne_zero
    rw [if_pos hlooked, hat']
    simp only [ok_bind, hholds'.fromCell]
    obtain ⟨final, hread⟩ := MessageBody.decodes (.front hs4 c.unread) rfl hcarried hshown
    rw [hread]
    exact ⟨_, rfl, rfl, rfl⟩

theorem of_decodeWalletV3 (hparsed : Parsed parsed cells) (hroot : cells[rootCellIndex]? = some root)
    {d : Decoded} (hread : decodeWalletV3 sdk locals parsed root.slice ctx = .ok d) :
    ∃ message : WalletV3Message, message.EncodedBy cells ∧
      message.shown sdk locals ctx = .ok (d.flow, d.display) := by
  simp only [decodeWalletV3, bind_eq_ok, validate_eq_ok, Prod.exists] at hread
  obtain ⟨_, _, h1, giftCell, hat, giftSlice, hslice, s2, display, h2, _, s3, h3, _, hstate,
    _, giftRefsCount, hrefs, _, s4, h4, hread⟩ := hread
  obtain ⟨expireAt, seqno, flags, hbits, rfl⟩ := root.unread.of_deserializeWalletV3 h1
  obtain ⟨gift, hgift, hgiftSlice, rfl⟩ := hparsed.of_cellAt hat
  rw [hgiftSlice] at hslice
  obtain rfl := Except.ok.inj hslice
  obtain ⟨header, _, hgiftBits, hheader, hs2⟩ := gift.unread.of_deserializeIntMessageHeader h2
  obtain ⟨state, _, rfl, rfl, hs3⟩ := hs2.front_of_getNextBit h3
  obtain ⟨bodyBit, rest, rfl, rfl, hs4⟩ := hs3.front_of_getNextBit h4
  obtain ⟨_, hholds⟩ := hparsed.holds _ _ hgift
  rw [hholds.getRefs] at hrefs
  obtain ⟨-, rfl⟩ := Prod.mk.inj (Except.ok.inj hrefs)
  obtain rfl : state = false := by cases state with
    | false => rfl
    | true => cases hstate
  obtain ⟨body, hbody, hshown⟩ : ∃ body : MessageBody, GiftBody cells gift bodyBit rest body ∧
      body.shown sdk locals ctx .transfer display = .ok (d.flow, d.display) := by
    unfold GiftBody
    by_cases hlooked : bodyBit.toNat ≠ 0 ∨ gift.refs.length ≠ 0
    · rw [if_pos hlooked] at hread
      simp only [bind_eq_ok, pure_eq_ok, Prod.exists] at hread
      obtain ⟨refCell, hat', refSlice, hslice', flow, source, display', hbody, rfl⟩ := hread
      obtain ⟨c, hc, hcSlice, rfl⟩ := hparsed.of_cellAt hat'
      rw [hcSlice] at hslice'
      obtain rfl := Except.ok.inj hslice'
      obtain ⟨body, hcarried, hshown⟩ :=
        (SuppliedBy.front hs4 c.unread).of_deserializeTokenBody rfl hbody
      refine ⟨body, ?_, hshown _⟩
      rw [if_neg ?_]
      · exact ⟨c, hc, hcarried⟩
      · rintro ⟨rfl, hnil⟩
        simp [hnil] at hlooked
    · rw [if_neg hlooked] at hread
      obtain rfl := pure_eq_ok.mp hread
      refine ⟨.absent, ?_, rfl⟩
      rw [if_pos]
      cases bodyBit <;> simp_all
  exact ⟨⟨expireAt, seqno, flags, header, bodyBit, body⟩,
    ⟨root, gift, rest, hroot, hgift, hbits, hgiftBits, hbody⟩,
    bind_eq_ok.mpr ⟨display, hheader, hshown⟩⟩

end WalletV3Message

namespace ContractMessage

variable {message : ContractMessage}

/-- Behind the header, with the arguments in some cell. -/
theorem decodes_arguments {arguments : RawCell} {cell : Cell} {tail : List UInt8}
    {slice : SliceData} {behind : List Bool} (hparsed : Parsed parsed cells)
    (hcell : Holds cell arguments tail) (hslice : Unread slice (message.arguments.bits ++ behind))
    (hbody : CallBody cells arguments message.body)
    (hshown : message.shown sdk locals request = .ok (flow, display)) (giftIndex : Nat) :
    ∃ d, (do
        let (flow, giftSlice, display) ← deserializeMultisigParams sdk locals slice
          message.id.toNat request.wc request.address request.ctx Display.untouched
        decodeGiftBody sdk locals parsed cell request.ctx
          ⟨flow, display, giftIndex, giftSlice, none⟩) = .ok d ∧
      d.flow = flow ∧ d.display = display := by
  obtain ⟨⟨called, said⟩, harguments, hshown⟩ := bind_eq_ok.mp hshown
  obtain ⟨next, hread, -⟩ := CallArguments.decodes hslice message.id_function harguments
  rw [hread, ok_bind]
  exact hbody.decodes hparsed hcell hshown

theorem of_arguments {arguments : RawCell} {cell : Cell} {tail : List UInt8} {slice : SliceData}
    {bits : List Bool} {functionId giftIndex : Nat} {d : Decoded} (hparsed : Parsed parsed cells)
    (hcell : Holds cell arguments tail) (hslice : Unread slice bits)
    (hread : (do
        let (flow, giftSlice, display) ← deserializeMultisigParams sdk locals slice functionId
          request.wc request.address request.ctx Display.untouched
        decodeGiftBody sdk locals parsed cell request.ctx
          ⟨flow, display, giftIndex, giftSlice, none⟩) = .ok d) :
    ∃ (said : CallArguments) (behind : List Bool) (body : MessageBody),
      ContractFunction.ofId functionId = some said.function ∧ bits = said.bits ++ behind ∧
      CallBody cells arguments body ∧ (do
        let called ← said.shown sdk locals request.wc request.address request.ctx
        body.shown sdk locals request.ctx called.1 called.2) = .ok (d.flow, d.display) := by
  obtain ⟨⟨called, next, display⟩, hparams, hread⟩ := bind_eq_ok.mp hread
  obtain ⟨said, behind, hid, hbits, hshown, -⟩ := hslice.of_deserializeMultisigParams hparams
  obtain ⟨body, hbody, hbodyShown⟩ := of_decodeGiftBody hparsed hcell hread
  exact ⟨said, behind, body, hid, hbits, hbody, bind_eq_ok.mpr ⟨_, hshown, hbodyShown⟩⟩

theorem decodes (hparsed : Parsed parsed cells) (hroot : cells[rootCellIndex]? = some root)
    {family : WalletFamily} (hfamily : family ≠ .walletV3) (hencoded : message.EncodedBy family cells)
    (hshown : message.shown sdk locals request = .ok (flow, display)) :
    ∃ d, decodeFor sdk locals request parsed root.slice family = .ok d ∧ d.flow = flow ∧
      d.display = display := by
  obtain ⟨root', rest, hroot', hbits, hplaced⟩ := hencoded
  rw [hroot] at hroot'
  obtain rfl := Option.some.inj hroot'
  obtain ⟨s1, h1, hs1⟩ := (hbits ▸ root.unread).deserializeContractHeader message.id.toNat_lt
  cases family with
  | walletV3 => exact absurd rfl hfamily
  | contract =>
    simp only [decodeFor, decodeContract, h1, ok_bind, message.id_function, Option.some.injEq]
    by_cases hin : message.arguments.function = .confirmTransaction
    · rw [if_pos (show message.InRoot .contract from ⟨rfl, hin⟩)] at hplaced
      obtain ⟨behind, rfl, hbody⟩ := hplaced
      obtain ⟨_, hholds⟩ := hparsed.holds _ _ hroot
      simp only [hin, decide_true, true_or, if_true, validate_of_true, ok_bind]
      exact decodes_arguments hparsed hholds hs1 hbody hshown _
    · rw [if_neg (fun h => hin h.2)] at hplaced
      obtain ⟨arguments, behind, harguments, hargumentBits, hbody⟩ := hplaced
      obtain ⟨_, hholds⟩ := hparsed.holds _ _ harguments
      have hcount : parsed.cellsCount > giftCellIndex := by
        rw [hparsed.count]
        exact (List.getElem?_eq_some_iff.mp harguments).1
      simp only [hin, decide_false, Bool.false_eq_true, if_false, false_or,
        validate_of_true hcount, ok_bind, hparsed.fromCell harguments]
      exact decodes_arguments hparsed hholds (hargumentBits ▸ arguments.unread) hbody hshown _
  | prefixedContract =>
    rw [if_neg (fun h => by cases h.1)] at hplaced
    obtain ⟨arguments, behind, harguments, hargumentBits, hbody⟩ := hplaced
    obtain ⟨_, hat, hholds⟩ := hparsed.cellAt harguments
    simp only [decodeFor, decodePrefixedContract, h1, hat, ok_bind, hholds.fromCell]
    exact decodes_arguments hparsed hholds (hargumentBits ▸ arguments.unread) hbody hshown _

/-- A message put together from what the decoders took. -/
theorem exists_of_parts {family : WalletFamily} {functionId : Nat} {header : CallHeader}
    {rest : List Bool} {said : CallArguments} {body : MessageBody} {screen : Flow × Display}
    (hlt : functionId < 2 ^ 32) (hfunction : ContractFunction.ofId functionId = some said.function)
    (hroot : cells[rootCellIndex]? = some root)
    (hbits : Bits.ofBytes root.data = header.bits functionId ++ rest)
    (hplaced : if family = .contract ∧ said.function = .confirmTransaction then
        ∃ behind, rest = said.bits ++ behind ∧ CallBody cells root body
      else
        ∃ arguments behind, cells[giftCellIndex]? = some arguments ∧
          Bits.ofBytes arguments.data = said.bits ++ behind ∧ CallBody cells arguments body)
    (hshown : (do
      let called ← said.shown sdk locals request.wc request.address request.ctx
      body.shown sdk locals request.ctx called.1 called.2) = .ok screen) :
    ∃ message : ContractMessage, message.EncodedBy family cells ∧
      message.shown sdk locals request = .ok screen := by
  have hid : (UInt32.ofNat functionId).toNat = functionId := UInt32.toNat_ofNat_of_lt' hlt
  rw [← hid] at hbits hfunction
  exact ⟨⟨header, UInt32.ofNat functionId, said, hfunction, body⟩,
    ⟨root, rest, hroot, hbits, hplaced⟩, hshown⟩

theorem of_decodeFor (hparsed : Parsed parsed cells) (hroot : cells[rootCellIndex]? = some root)
    {family : WalletFamily} (hfamily : family ≠ .walletV3) {d : Decoded}
    (hread : decodeFor sdk locals request parsed root.slice family = .ok d) :
    ∃ message : ContractMessage, message.EncodedBy family cells ∧
      message.shown sdk locals request = .ok (d.flow, d.display) := by
  cases family with
  | walletV3 => exact absurd rfl hfamily
  | contract =>
    simp only [decodeFor, decodeContract] at hread
    obtain ⟨⟨functionId, s1⟩, h1, hread⟩ := bind_eq_ok.mp hread
    obtain ⟨header, rest, hlt, hbits, hs1⟩ := root.unread.of_deserializeContractHeader h1
    by_cases hin : ContractFunction.ofId functionId = some .confirmTransaction
    · obtain ⟨_, hholds⟩ := hparsed.holds _ _ hroot
      simp only [hin, decide_true, true_or, if_true, validate_of_true, ok_bind] at hread
      obtain ⟨said, behind, body, hfunction, rfl, hbody, hshown⟩ :=
        of_arguments hparsed hholds hs1 hread
      have hconfirm := Option.some.inj (hfunction.symm.trans hin)
      refine exists_of_parts hlt hfunction hroot hbits ?_ hshown
      rw [if_pos ⟨rfl, hconfirm⟩]
      exact ⟨behind, rfl, hbody⟩
    · simp only [hin, decide_false, Bool.false_eq_true, if_false, false_or] at hread
      obtain ⟨_, hcount, hread⟩ := bind_eq_ok.mp hread
      have hlt' : giftCellIndex < cells.length := by
        rw [← hparsed.count]
        exact validate_eq_ok.mp hcount
      have harguments := List.getElem?_eq_getElem hlt'
      obtain ⟨_, hholds⟩ := hparsed.holds _ _ harguments
      rw [hholds.fromCell, ok_bind] at hread
      obtain ⟨said, behind, body, hfunction, hargumentBits, hbody, hshown⟩ :=
        of_arguments hparsed hholds cells[giftCellIndex].unread hread
      refine exists_of_parts hlt hfunction hroot hbits ?_ hshown
      rw [if_neg fun h => hin (hfunction.trans (congrArg some h.2))]
      exact ⟨_, behind, harguments, hargumentBits, hbody⟩
  | prefixedContract =>
    simp only [decodeFor, decodePrefixedContract] at hread
    obtain ⟨⟨functionId, s1⟩, h1, hread⟩ := bind_eq_ok.mp hread
    obtain ⟨header, rest, hlt, hbits, -⟩ := root.unread.of_deserializeContractHeader h1
    obtain ⟨_, hat, hread⟩ := bind_eq_ok.mp hread
    obtain ⟨arguments, harguments, hslice, rfl⟩ := hparsed.of_cellAt hat
    obtain ⟨_, hholds⟩ := hparsed.holds _ _ harguments
    rw [hslice, ok_bind] at hread
    obtain ⟨said, behind, body, hfunction, hargumentBits, hbody, hshown⟩ :=
      of_arguments hparsed hholds arguments.unread hread
    refine exists_of_parts hlt hfunction hroot hbits ?_ hshown
    rw [if_neg fun h => by cases h.1]
    exact ⟨arguments, behind, harguments, hargumentBits, hbody⟩

end ContractMessage

/-- The decoders of a wallet take exactly the cells that encode a message, and show what
it says. -/
theorem WalletMessage.decodes_iff (hparsed : Parsed parsed cells)
    (hroot : cells[rootCellIndex]? = some root) (family : WalletFamily) :
    (∃ d, decodeFor sdk locals request parsed root.slice family = .ok d ∧ d.flow = flow ∧
      d.display = display) ↔
    ∃ message : WalletMessage, message.EncodedBy family cells ∧
      message.shown sdk locals request = .ok (flow, display) := by
  constructor
  · rintro ⟨d, hread, rfl, rfl⟩
    by_cases hfamily : family = .walletV3
    · subst hfamily
      obtain ⟨message, hencoded, hshown⟩ := WalletV3Message.of_decodeWalletV3 hparsed hroot hread
      exact ⟨.gift message, ⟨rfl, hencoded⟩, hshown⟩
    · obtain ⟨message, hencoded, hshown⟩ := ContractMessage.of_decodeFor hparsed hroot hfamily hread
      exact ⟨.call message, ⟨hfamily, hencoded⟩, hshown⟩
  · rintro ⟨message, hencoded, hshown⟩
    cases message with
    | gift message =>
      obtain ⟨rfl, hencoded⟩ := hencoded
      exact message.decodes hparsed hroot hencoded hshown
    | call message => exact message.decodes hparsed hroot hencoded.1 hencoded.2 hshown

/-! Cells encode one message. -/

theorem WalletMessage.EncodedBy.exists_root {family : WalletFamily} {message : WalletMessage}
    (h : message.EncodedBy family cells) : ∃ root, cells[rootCellIndex]? = some root := by
  cases message with
  | gift message =>
    obtain ⟨-, root, _, _, hroot, -⟩ := h
    exact ⟨root, hroot⟩
  | call message =>
    obtain ⟨-, root, _, hroot, -⟩ := h
    exact ⟨root, hroot⟩

theorem GiftBody.unique {gift : RawCell} {bodyBit : Bool} {rest : List Bool} {first second : MessageBody}
    (h : GiftBody cells gift bodyBit rest first) (h' : GiftBody cells gift bodyBit rest second) :
    first = second := by
  unfold GiftBody at h h'
  by_cases hnone : bodyBit = false ∧ gift.refs = []
  · rw [if_pos hnone] at h h'
    exact h.trans h'.symm
  · rw [if_neg hnone] at h h'
    obtain ⟨cell, hcell, hcarried⟩ := h
    obtain ⟨_, hcell', hcarried'⟩ := h'
    rw [hcell] at hcell'
    obtain rfl := Option.some.inj hcell'
    exact hcarried.unique hcarried'

theorem CallBody.unique {arguments : RawCell} {first second : MessageBody}
    (h : CallBody cells arguments first) (h' : CallBody cells arguments second) :
    first = second := by
  unfold CallBody at h h'
  by_cases hrefs : arguments.refs = []
  · rw [if_pos hrefs] at h h'
    exact h.trans h'.symm
  · rw [if_neg hrefs] at h h'
    obtain ⟨cell, hcell, hbody⟩ := h
    obtain ⟨_, hcell', hbody'⟩ := h'
    rw [hcell] at hcell'
    obtain rfl := Option.some.inj hcell'
    by_cases hdata : cell.data = []
    · rw [if_pos hdata] at hbody hbody'
      exact hbody.trans hbody'.symm
    · rw [if_neg hdata] at hbody hbody'
      exact hbody.unique hbody'

theorem WalletV3Message.EncodedBy.unique {first second : WalletV3Message} (h : first.EncodedBy cells)
    (h' : second.EncodedBy cells) : first = second := by
  obtain ⟨root, gift, rest, hroot, hgift, hbits, hgiftBits, hbody⟩ := h
  obtain ⟨_, _, rest', hroot', hgift', hbits', hgiftBits', hbody'⟩ := h'
  rw [hroot] at hroot'
  obtain rfl := Option.some.inj hroot'
  rw [hgift] at hgift'
  obtain rfl := Option.some.inj hgift'
  obtain ⟨hexpire, hseqno, hflags⟩ := walletV3Bits_inj (hbits.symm.trans hbits')
  obtain ⟨hheader, hrest⟩ :=
    MessageHeader.selfDelimiting.rest_eq (hgiftBits.symm.trans hgiftBits')
  obtain ⟨-, hrest⟩ := List.cons.inj hrest
  obtain ⟨hbodyBit, hrest⟩ := List.cons.inj hrest
  rw [hbodyBit, hrest] at hbody
  have hbodies := hbody.unique hbody'
  cases first
  cases second
  simp_all

theorem ContractMessage.EncodedBy.unique {family : WalletFamily} {first second : ContractMessage}
    (h : first.EncodedBy family cells) (h' : second.EncodedBy family cells) : first = second := by
  obtain ⟨root, rest, hroot, hbits, hplaced⟩ := h
  obtain ⟨_, rest', hroot', hbits', hplaced'⟩ := h'
  rw [hroot] at hroot'
  obtain rfl := Option.some.inj hroot'
  obtain ⟨hheaded, hrest⟩ := CallHeader.selfDelimiting.rest_eq
    (a := (first.header, first.id)) (b := (second.header, second.id)) (hbits.symm.trans hbits')
  obtain ⟨hheader, hid⟩ := Prod.mk.inj hheaded
  -- the id says which function it is, and so where its arguments are
  have hfunction : first.arguments.function = second.arguments.function := by
    apply Option.some.inj
    rw [← first.id_function, ← second.id_function, hid]
  have harguments : first.arguments = second.arguments ∧ first.body = second.body := by
    by_cases hin : first.InRoot family
    · have hin' : second.InRoot family := ⟨hin.1, hfunction ▸ hin.2⟩
      rw [if_pos hin] at hplaced
      rw [if_pos hin'] at hplaced'
      obtain ⟨behind, rfl, hbody⟩ := hplaced
      obtain ⟨behind', rfl, hbody'⟩ := hplaced'
      exact ⟨(CallArguments.rest_eq hfunction hrest).1, hbody.unique hbody'⟩
    · have hin' : ¬ second.InRoot family := fun h => hin ⟨h.1, hfunction.trans h.2⟩
      rw [if_neg hin] at hplaced
      rw [if_neg hin'] at hplaced'
      obtain ⟨cell, behind, hcell, hargumentBits, hbody⟩ := hplaced
      obtain ⟨_, behind', hcell', hargumentBits', hbody'⟩ := hplaced'
      rw [hcell] at hcell'
      obtain rfl := Option.some.inj hcell'
      exact ⟨(CallArguments.rest_eq hfunction (hargumentBits.symm.trans hargumentBits')).1,
        hbody.unique hbody'⟩
  cases first
  cases second
  simp_all

theorem WalletMessage.EncodedBy.unique {family : WalletFamily} {first second : WalletMessage}
    (h : first.EncodedBy family cells) (h' : second.EncodedBy family cells) : first = second := by
  cases first with
  | gift message =>
    cases second with
    | gift message' => exact congrArg WalletMessage.gift (h.2.unique h'.2)
    | call message' => exact absurd h.1 h'.1
  | call message =>
    cases second with
    | gift message' => exact absurd h'.1 h.1
    | call message' => exact congrArg WalletMessage.call (h.2.unique h'.2)

end

end EverscaleLedger.Properties
