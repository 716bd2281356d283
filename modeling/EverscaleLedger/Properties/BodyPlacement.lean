import EverscaleLedger.Properties.HonestTransfer
import EverscaleLedger.Properties.TokenStreams

/-! The body of a wallet transfer in its two places, inside the internal message and
in a cell of its own, and for which bodies both are displayed alike. -/
namespace EverscaleLedger.Properties

open Library Source Slice

/-! The two forms of a message. -/

/-- The cell, when one more cell comes before those that it refers to. -/
def RawCell.later (c : RawCell) : RawCell where
  d1 := c.d1
  d2 := c.d2
  data := c.data
  refs := c.refs.map (· + 1)
  data_length := c.data_length
  refs_length := (List.length_map _).trans c.refs_length

/-- A wallet transfer with room for a body. `below` is what the references of header
and body lead to, where the body is inside the internal message. -/
structure GiftMessage (body : List Bool) where
  expireAt : UInt32
  seqno : UInt32
  flags : UInt8
  header : GiftHeader
  headerRefs : List UInt8
  bodyRefs : List UInt8
  below : List RawCell
  length_lt : header.bits.length + 2 + body.length < 1024
  headerRefs_lt : headerRefs.length < maxReferencesCount
  refs_le : headerRefs.length + bodyRefs.length ≤ maxReferencesCount

/-- A byte string that carries these cells. -/
def Carries (src : ByteStream) (cells : List RawCell) : Prop :=
  ∃ (header : BocHeader) (tail : List UInt8), src.getCursor =
    header.bytes (UInt8.ofNat cells.length) ++ (serializeCells cells ++ tail)

theorem carries_received (cells : List RawCell) :
    Carries (received (serialize plainHeader (UInt8.ofNat cells.length) cells)) cells :=
  ⟨plainHeader, [], by
    rw [List.append_nil]
    rfl⟩

/-- The flow and the two strings of a run, if it succeeds. -/
def screen (result : Outcome Prepared) : Option (Flow × Option (List UInt8) × Option (List UInt8)) :=
  result.toOption.map fun p =>
    (p.decoded.flow, p.decoded.display.amountStr, p.decoded.display.addressStr)

namespace GiftMessage

variable {body : List Bool} (m : GiftMessage body)

def refs : List UInt8 := m.headerRefs ++ m.bodyRefs

def root : RawCell :=
  .ordinary (walletV3Bits m.expireAt m.seqno m.flags) [1]
    (by rw [length_walletV3Bits]; decide) one_ref_lt

/-- The body bit is not set, and the body follows it. -/
def inlineGift : RawCell :=
  .ordinary (m.header.bits ++ (false :: false :: body)) m.refs
    (by
      have h := m.length_lt
      rw [List.length_append, List.length_cons, List.length_cons]
      omega)
    (by
      have h := m.refs_le
      rw [refs, List.length_append]
      exact Nat.lt_of_le_of_lt h (by decide))

/-- The body bit is set, and nothing follows it. -/
def referringGift : RawCell :=
  .ordinary (m.header.bits ++ [false, true]) (2 :: m.headerRefs.map (· + 1))
    (by
      have h := m.length_lt
      rw [List.length_append, List.length_cons, List.length_singleton]
      omega)
    (by
      have h := m.headerRefs_lt
      rw [List.length_cons, List.length_map]
      exact Nat.lt_of_lt_of_le (Nat.succ_lt_succ h) (by decide))

def bodyCell : RawCell :=
  .ordinary body (m.bodyRefs.map (· + 1))
    (by
      have h := m.length_lt
      omega)
    (by
      have h := m.refs_le
      rw [List.length_map]
      exact Nat.lt_of_le_of_lt (Nat.le_trans (Nat.le_add_left _ _) h) (by decide))

def inlineCells : List RawCell := m.root :: m.inlineGift :: m.below

def referringCells : List RawCell :=
  m.root :: m.referringGift :: m.bodyCell :: m.below.map RawCell.later

/-- Both forms are bags of cells. -/
structure Fits : Prop where
  inlined : OrdinaryBoc m.inlineCells
  referring : OrdinaryBoc m.referringCells

/-- Both forms are displayed alike, or both are refused. -/
def SameScreens (sdk : Sdk) (locals : Locals) (request : SigningRequest) (bc : BocContext) : Prop :=
  ∀ inlineSrc referringSrc, Carries inlineSrc m.inlineCells →
    Carries referringSrc m.referringCells →
    screen (request.prepare sdk locals bc inlineSrc) =
      screen (request.prepare sdk locals bc referringSrc)

/-- The bits of the cell that the decoder takes for the body's when there are
references: the third one of the list. -/
def spareBits : List Bool := (m.below.head?.map fun c => Bits.ofBytes c.data).getD []

/-- What the body inside the internal message shows. -/
def inlineShown (sdk : Sdk) (locals : Locals) (ctx : SignTransactionContext) (display : Display) :
    Option (Flow × Display) :=
  if m.refs = [] then some (.transfer, display)
  else bodyShown sdk locals ctx (body ++ Bits.padding (m.header.bits.length + 2 + body.length))
    m.spareBits display

/-- What the body in a cell of its own shows. -/
def referringShown (sdk : Sdk) (locals : Locals) (ctx : SignTransactionContext)
    (display : Display) : Option (Flow × Display) :=
  bodyShown sdk locals ctx (Bits.padding (m.header.bits.length + 2)) (Bits.completed body) display

end GiftMessage

/-! The runs. -/

def strings (shown : Flow × Display) : Flow × Option (List UInt8) × Option (List UInt8) :=
  (shown.1, shown.2.amountStr, shown.2.addressStr)

theorem EndsAs.screen_eq {result : Outcome Prepared} {decoded : Outcome Decoded}
    (h : EndsAs result decoded) :
    screen result = (decoded.toOption.map fun d => (d.flow, d.display)).map strings := by
  cases decoded with
  | error e =>
    rw [show result = .error e from h]
    rfl
  | ok d =>
    obtain ⟨p, rfl, rfl⟩ := h
    rfl

theorem GiftMessage.below_cons {body : List Bool} {m : GiftMessage body} (hfits : m.Fits)
    (hrefs : m.refs ≠ []) : ∃ c rest, m.below = c :: rest := by
  obtain ⟨r, hr⟩ := List.exists_mem_of_ne_nil _ hrefs
  obtain ⟨hlater, hlt⟩ := hfits.inlined.refs ⟨1, Nat.succ_lt_succ (Nat.succ_pos _)⟩ r hr
  cases hbelow : m.below with
  | nil =>
    rw [inlineCells, hbelow] at hlt
    change 1 < r.toNat at hlater
    change r.toNat < 2 at hlt
    omega
  | cons c rest => exact ⟨c, rest, rfl⟩

section

variable {sdk : Sdk} {locals : Locals} {ctx : SignTransactionContext}

/-- A body that is looked for shows what its two slices say. -/
theorem decoded_body {parsed : BocContext} {cells : List RawCell} {c : RawCell}
    (hparsed : Parsed parsed cells) (hc : cells[giftCellIndex + 1]? = some c) {next : SliceData}
    {bits : List Bool} (hnext : Unread next bits) (display : Display) :
    ((do
        let refCell ← cellAt parsed (giftCellIndex + 1)
        let refSlice ← SliceData.fromCell refCell
        let (flow, source, display) ←
          deserializeTokenBody sdk locals ⟨next, some refSlice, false⟩ ctx display
        pure (⟨flow, display, giftCellIndex, source.slice, source.refSlice⟩ : Decoded) :
          Outcome Decoded).toOption.map fun d => (d.flow, d.display)) =
      bodyShown sdk locals ctx bits (Bits.ofBytes c.data) display := by
  obtain ⟨rest, hcell, hholds⟩ := hparsed.cellAt hc
  have hshown := @bodyShown_eq sdk locals ctx next c.slice bits _ hnext c.unread display
  rw [hcell, ok_bind, hholds.fromCell, ok_bind, ← hshown]
  cases deserializeTokenBody sdk locals ⟨next, some c.slice, false⟩ ctx display <;> rfl

end

section

variable {sdk : Sdk} {locals : Locals} {request : SigningRequest} {bc : BocContext}
  {body : List Bool} {m : GiftMessage body} {src : ByteStream}
  (hfamily : request.family = some .walletV3) (hindex : bc.publicKeyCellIndex = 0)

include hfamily hindex

theorem GiftMessage.screen_inline (hfits : m.Fits) (hsrc : Carries src m.inlineCells) :
    screen (request.prepare sdk locals bc src) =
      (((m.header.shown sdk locals m.flags.toNat request.ctx Display.untouched).toOption.bind
        (m.inlineShown sdk locals request.ctx)).map strings) := by
  obtain ⟨header, tail, hcursor⟩ := hsrc
  obtain ⟨parsed, hparsed, hends⟩ := hfits.inlined.endsAs sdk locals hfamily nofun hindex header
    tail hcursor
  rw [hends.screen_eq]
  congr 1
  obtain ⟨next, hnext, hdecode⟩ := @decodeWalletV3_eq sdk locals request.ctx _ _ _ _ hparsed _ _ _ _ _
    (RawCell.ordinary_encodes _ _) _ _ _ (RawCell.ordinary_encodes _ _)
  rw [decodeFor, hdecode]
  cases m.header.shown sdk locals m.flags.toNat request.ctx Display.untouched with
  | error e => rfl
  | ok display =>
    rw [ok_bind]
    unfold inlineShown
    by_cases hrefs : m.refs = []
    · rw [if_neg (by simp [hrefs])]
      simp only [hrefs, if_true]
      rfl
    · obtain ⟨c, rest, hbelow⟩ := below_cons hfits hrefs
      have hthird : m.inlineCells[giftCellIndex + 1]? = some c := by
        change m.below[0]? = some c
        rw [hbelow]
        rfl
      have hspare : m.spareBits = Bits.ofBytes c.data := by
        unfold spareBits
        rw [hbelow]
        rfl
      have hbody := @decoded_body sdk locals request.ctx parsed _ c hparsed hthird next _ hnext
        display
      simp only [hrefs, ne_eq, not_false_eq_true, or_true, if_true, hspare, if_false,
        Except.toOption, Option.bind_some, ← hbody]

theorem GiftMessage.screen_referring (hfits : m.Fits) (hsrc : Carries src m.referringCells) :
    screen (request.prepare sdk locals bc src) =
      (((m.header.shown sdk locals m.flags.toNat request.ctx Display.untouched).toOption.bind
        (m.referringShown sdk locals request.ctx)).map strings) := by
  obtain ⟨header, tail, hcursor⟩ := hsrc
  obtain ⟨parsed, hparsed, hends⟩ := hfits.referring.endsAs sdk locals hfamily nofun hindex header
    tail hcursor
  rw [hends.screen_eq]
  congr 1
  obtain ⟨next, hnext, hdecode⟩ := @decodeWalletV3_eq sdk locals request.ctx _ _ _ _ hparsed _ _ _ _ _
    (RawCell.ordinary_encodes _ _) _ _ _ (RawCell.ordinary_encodes _ _)
  rw [decodeFor, hdecode]
  cases m.header.shown sdk locals m.flags.toNat request.ctx Display.untouched with
  | error e => rfl
  | ok display =>
    have hbodyBits : Bits.ofBytes m.bodyCell.data = Bits.completed body :=
      (RawCell.ordinary_encodes _ _).ofBytes_data
    have hbody := @decoded_body sdk locals request.ctx parsed _ m.bodyCell hparsed rfl next _ hnext
      display
    rw [hbodyBits] at hbody
    rw [ok_bind, if_pos (Or.inl rfl)]
    exact hbody

end

/-- Being displayed alike is a matter of the bits. -/
theorem GiftMessage.sameScreens_iff {sdk : Sdk} {locals : Locals} {request : SigningRequest}
    {bc : BocContext} {body : List Bool} {m : GiftMessage body}
    (hfamily : request.family = some .walletV3) (hindex : bc.publicKeyCellIndex = 0)
    (hfits : m.Fits) : m.SameScreens sdk locals request bc ↔
      ∀ display, m.header.shown sdk locals m.flags.toNat request.ctx Display.untouched = .ok display →
        (m.inlineShown sdk locals request.ctx display).map strings =
          (m.referringShown sdk locals request.ctx display).map strings := by
  constructor
  · intro hsame display hshown
    have hinline := carries_received m.inlineCells
    have hreferring := carries_received m.referringCells
    have hscreens := hsame _ _ hinline hreferring
    rwa [screen_inline hfamily hindex hfits hinline,
      screen_referring hfamily hindex hfits hreferring, hshown] at hscreens
  · intro hsame inlineSrc referringSrc hinline hreferring
    rw [screen_inline hfamily hindex hfits hinline, screen_referring hfamily hindex hfits hreferring]
    cases hshown : m.header.shown sdk locals m.flags.toNat request.ctx Display.untouched with
    | error e => rfl
    | ok display => exact hsame display hshown

end EverscaleLedger.Properties
