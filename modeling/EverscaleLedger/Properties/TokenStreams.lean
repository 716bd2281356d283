import EverscaleLedger.Properties.MessageFormat
import EverscaleLedger.Properties.MessageAddress
import EverscaleLedger.Properties.Decoding

/-! `deserialize_token_body` on the bits of its two slices: what it shows depends on
the unread bits only, wherever they are. -/
namespace EverscaleLedger.Properties

open Library Source Slice

/-- What the current slice has left, and the referenced one while it was not turned to. -/
structure BodyBits where
  bits : List Bool
  spare : Option (List Bool)

namespace BodyBits

def need (body : BodyBits) (count : Nat) : BodyBits :=
  match body.spare with
  | some referenced => if body.bits.length < count then ⟨referenced, none⟩ else body
  | none => body

def advance (body : BodyBits) (count : Nat) : BodyBits := ⟨body.bits.drop count, body.spare⟩

/-- The amount, and the display that it gives. -/
def amount (ctx : SignTransactionContext) (body : BodyBits) (display : Display) :
    Option (BodyBits × Display) :=
  let body := body.need (amountLength * 8)
  if body.bits.length < amountLength * 8 then none
  else ((setAmount (Bits.pack (body.bits.take (amountLength * 8))) amountLength normalFlag
    ctx.decimals ctx.ticker display).toOption).map fun shown =>
      (body.advance (amountLength * 8), shown)

end BodyBits

/-- The address at the start of a bit string, with what the outputs hold before. -/
def addressAt (bits : List Bool) (wc : UInt8) (address : List UInt8) : Option (UInt8 × List UInt8) :=
  if bits.take 2 = [false, false] then some (wc, address)
  else if bits.take 2 = [true, false] ∧ 267 ≤ bits.length then
    some (Bits.toByte ((bits.drop 3).take 8), Bits.pack ((bits.drop 11).take 256))
  else none

/-- The screens of a function, whose arguments come next. -/
def functionShown (sdk : Sdk) (locals : Locals) (ctx : SignTransactionContext) (functionId : Nat)
    (body : BodyBits) (display : Display) : Option (Flow × Display) :=
  match TokenFunction.ofId functionId with
  | some .transfer => do
      let (body, display) ← body.amount ctx display
      let (wc, address) ← addressAt (body.need (addressLength * 8)).bits 0 locals.tokenAddress.toList
      some (.transfer, setDstAddress sdk wc address display)
  | some .burn => do
      let (_, display) ← body.amount ctx display
      some (.burn, display)
  | none => some (.transfer, display)

/-- The screens of a body in two slices. -/
def bodyShown (sdk : Sdk) (locals : Locals) (ctx : SignTransactionContext)
    (bits referenced : List Bool) (display : Display) : Option (Flow × Display) :=
  if bits.length < 32 ∧ referenced.length < 32 then some (.transfer, display)
  else
    let body := BodyBits.need ⟨bits, some referenced⟩ 32
    functionShown sdk locals ctx (Bits.number (body.bits.take 32)) (body.advance 32) display

/-- The source has these bits left. -/
inductive Backs : TokenSource → BodyBits → Prop
  | first {slice ref : SliceData} {bits referenced : List Bool} (hbits : Unread slice bits)
      (hreferenced : Unread ref referenced) : Backs ⟨slice, some ref, false⟩ ⟨bits, some referenced⟩
  | second {slice ref : SliceData} {bits : List Bool} (hbits : Unread ref bits) :
      Backs ⟨slice, some ref, true⟩ ⟨bits, none⟩

namespace Backs

variable {source : TokenSource} {body : BodyBits}

theorem current (h : Backs source body) : Unread source.current body.bits := by
  cases h with
  | first hbits _ => exact hbits
  | second hbits => exact hbits

theorem advance (h : Backs source body) {next : SliceData} {count : Nat}
    (hnext : Unread next (body.bits.drop count)) :
    Backs (source.advance next) (body.advance count) := by
  cases h with
  | first _ hreferenced => exact .first hnext hreferenced
  | second _ => exact .second hnext

theorem needBits (h : Backs source body) (count : Nat) :
    ∃ needed, source.needBits count = .ok needed ∧ Backs needed (body.need count) := by
  unfold TokenSource.needBits BodyBits.need
  rw [h.current.remainingBits]
  cases h with
  | first hbits hreferenced =>
    split
    · exact ⟨_, rfl, .second hreferenced⟩
    · exact ⟨_, rfl, .first hbits hreferenced⟩
  | second hbits => split <;> exact ⟨_, rfl, .second hbits⟩

end Backs

theorem toOption_eq_none {x : Outcome α} (h : ∀ value, x ≠ .ok value) : x.toOption = none := by
  cases x with
  | error e => rfl
  | ok value => exact absurd rfl (h value)

theorem Unread.splitAt {slice : SliceData} {bits : List Bool} (h : Unread slice bits) (count : Nat) :
    Unread slice (bits.take count ++ bits.drop count) := by
  rwa [List.take_append_drop]

theorem Unread.addressAt {slice : SliceData} {bits : List Bool} (h : Unread slice bits) (wc : UInt8)
    (address : List UInt8) : (Source.deserializeAddress slice wc address).toOption.map Prod.snd =
      Properties.addressAt bits wc address := by
  have hwindow := h.window
  have htag : ∀ tag : List Bool, tag.length = 2 → slice.dataWindowStart + 2 ≤ slice.dataWindowEnd →
      (bits.take 2 = tag ↔ bitsAt slice slice.dataWindowStart 2 = tag) := by
    intro tag hlength hend
    have hfront := (h.splitAt 2).front
    rw [List.length_take, Nat.min_eq_left (by omega)] at hfront
    rw [hfront]
  unfold Properties.addressAt
  by_cases hnone : bits.take 2 = [false, false]
  · have hlength : 2 ≤ bits.length := by
      have hle := congrArg List.length hnone
      rw [List.length_take] at hle
      change min 2 bits.length = 2 at hle
      omega
    rw [if_pos hnone, deserializeAddress_none h.sound (by omega)
      ((htag _ rfl (by omega)).mp hnone)]
    rfl
  rw [if_neg hnone]
  by_cases hstd : bits.take 2 = [true, false] ∧ 267 ≤ bits.length
  · obtain ⟨hkind, hlength⟩ := hstd
    have hfields := h.bits_eq
    rw [if_pos ⟨hkind, hlength⟩, deserializeAddress_std h.sound (by omega)
      ((htag _ rfl (by omega)).mp hkind)]
    have hwc := (h.splitAt 3).skip.splitAt 8 |>.front
    have haccount := (h.splitAt 11).skip.splitAt 256 |>.front
    rw [List.length_take, List.length_take, List.length_drop, movedTo_start, bitsAt_movedTo,
      Nat.min_eq_left (by omega), Nat.min_eq_left (by omega)] at hwc haccount
    rw [hwc, haccount]
    rfl
  · rw [if_neg hstd, toOption_eq_none]
    · rfl
    rintro ⟨next, wc', address'⟩ hread
    have hend : slice.dataWindowStart + 2 ≤ slice.dataWindowEnd := by
      obtain ⟨_, hkind, -⟩ := bind_eq_ok.mp hread
      exact (getNextInt_ok hkind).2.2
    obtain ⟨hkind, -⟩ | ⟨hkind, hend', -⟩ := deserializeAddress_cases h.sound hread
    · exact hnone ((htag _ rfl hend).mpr hkind)
    · exact hstd ⟨(htag _ rfl hend).mpr hkind, by omega⟩

theorem Backs.amount {source : TokenSource} {body : BodyBits} (h : Backs source body)
    (ctx : SignTransactionContext) (display : Display) :
    (∃ moved next shown, deserializeTokenAmount source ctx display = .ok (moved, shown) ∧
      body.amount ctx display = some (next, shown) ∧ Backs moved next) ∨
    (deserializeTokenAmount source ctx display).toOption = none ∧ body.amount ctx display = none := by
  obtain ⟨needed, hneed, hbacks⟩ := h.needBits (amountLength * 8)
  unfold deserializeTokenAmount BodyBits.amount
  rw [hneed, ok_bind]
  simp only
  generalize body.need (amountLength * 8) = current at hbacks ⊢
  by_cases hshort : current.bits.length < amountLength * 8
  · refine Or.inr ⟨toOption_eq_none fun result hresult => ?_, if_pos hshort⟩
    obtain ⟨value, hvalue, -⟩ := bind_eq_ok.mp hresult
    exact hbacks.current.deserializeValue_short (Nat.mul_comm _ _ ▸ hshort) hvalue
  rw [if_neg hshort]
  have hlength : (current.bits.take (amountLength * 8)).length = amountLength * 8 := by
    rw [List.length_take, Nat.min_eq_left (Nat.le_of_not_lt hshort)]
  have hread := hbacks.current.splitAt (amountLength * 8)
  rw [← Bits.ofBytes_pack (show (current.bits.take (amountLength * 8)).length % 8 = 0 by
    rw [hlength]; rfl)] at hread
  obtain ⟨next, hvalue, hnext⟩ := hread.deserializeValue
  rw [Bits.length_pack, hlength] at hvalue
  change deserializeValue needed.current amountLength = _ at hvalue
  rw [hvalue, ok_bind]
  simp only
  cases hset : setAmount (Bits.pack (current.bits.take (amountLength * 8))) amountLength normalFlag
      ctx.decimals ctx.ticker display with
  | error e => exact Or.inr ⟨rfl, rfl⟩
  | ok shown => exact Or.inl ⟨_, _, _, rfl, rfl, hbacks.advance hnext⟩

section

variable {sdk : Sdk} {locals : Locals} {ctx : SignTransactionContext}

theorem Backs.function {source : TokenSource} {body : BodyBits} (h : Backs source body)
    (functionId : Nat) (display : Display) :
    (deserializeTokenFunction sdk locals source functionId ctx display).toOption.map
        (fun result => (result.1, result.2.2)) =
      functionShown sdk locals ctx functionId body display := by
  unfold deserializeTokenFunction functionShown
  cases TokenFunction.ofId functionId with
  | none => rfl
  | some function =>
    obtain ⟨moved, next, shown, hamount, hshown, hbacks⟩ | ⟨hamount, hshown⟩ := h.amount ctx display
    rotate_left
    · cases hresult : deserializeTokenAmount source ctx display with
      | error e => cases function <;> simp only [hshown] <;> rfl
      | ok result =>
        rw [hresult] at hamount
        cases hamount
    cases function with
    | burn =>
      simp only [hamount, hshown]
      rfl
    | transfer =>
      obtain ⟨needed, hneed, hneeded⟩ := hbacks.needBits (addressLength * 8)
      have haddress := hneeded.current.addressAt 0 locals.tokenAddress.toList
      simp only [hamount, hshown, ok_bind, hneed, Option.bind_eq_bind, Option.bind_some]
      rw [← haddress]
      cases Source.deserializeAddress needed.current 0 locals.tokenAddress.toList <;> rfl

theorem bodyShown_eq {slice ref : SliceData} {bits referenced : List Bool}
    (hbits : Unread slice bits) (hreferenced : Unread ref referenced) (display : Display) :
    (deserializeTokenBody sdk locals ⟨slice, some ref, false⟩ ctx display).toOption.map
        (fun result => (result.1, result.2.2)) =
      bodyShown sdk locals ctx bits referenced display := by
  have hfirst := hbits.remainingBits
  have hsecond := hreferenced.remainingBits
  unfold deserializeTokenBody bodyShown
  simp only [hfirst, hsecond]
  by_cases hempty : bits.length < 32 ∧ referenced.length < 32
  · rw [if_pos hempty, if_pos hempty]
    rfl
  rw [if_neg hempty, if_neg hempty]
  have hstart : Backs ⟨slice, some ref, decide (bits.length < 32)⟩
      (BodyBits.need ⟨bits, some referenced⟩ 32) := by
    unfold BodyBits.need
    by_cases hshort : bits.length < 32
    · simp only [hshort, decide_true, if_true]
      exact .second hreferenced
    · simp only [hshort, decide_false, if_false]
      exact .first hbits hreferenced
  have hlong : 32 ≤ (BodyBits.need ⟨bits, some referenced⟩ 32).bits.length := by
    unfold BodyBits.need
    simp only
    split
    · simp only
      omega
    · simp only
      omega
  generalize BodyBits.need ⟨bits, some referenced⟩ 32 = body at hstart hlong ⊢
  have hlength : (body.bits.take 32).length = 32 := by
    rw [List.length_take, Nat.min_eq_left hlong]
  obtain ⟨next, hid, hnext⟩ := (hstart.current.splitAt 32).getNextInt hlength (by decide)
  rw [hid, ok_bind]
  exact (hstart.advance hnext).function _ display

end

/-! What the screens of a body depend on. -/

theorem BodyBits.need_of_long {body : BodyBits} {count : Nat} (h : count ≤ body.bits.length) :
    body.need count = body := by
  unfold need
  split
  · exact if_neg (Nat.not_lt_of_le h)
  · rfl

theorem BodyBits.amount_of_long {body : BodyBits} (h : amountLength * 8 ≤ body.bits.length)
    (ctx : SignTransactionContext) (display : Display) :
    body.amount ctx display =
      (setAmount (Bits.pack (body.bits.take (amountLength * 8))) amountLength normalFlag ctx.decimals
        ctx.ticker display).toOption.map fun shown => (body.advance (amountLength * 8), shown) := by
  unfold BodyBits.amount
  rw [need_of_long h]
  exact if_neg (Nat.not_lt_of_le h)

theorem addressAt_congr {first second : List Bool} (htag : first.take 2 = second.take 2)
    (hstd : first.take 2 = [true, false] →
      first.length < 267 ∧ second.length < 267 ∨
      267 ≤ first.length ∧ 267 ≤ second.length ∧ first.take 267 = second.take 267)
    (wc : UInt8) (address : List UInt8) :
    addressAt first wc address = addressAt second wc address := by
  unfold addressAt
  rw [← htag]
  by_cases hkind : first.take 2 = [true, false]
  · obtain ⟨hfirst, hsecond⟩ | ⟨hfirst, hsecond, hsame⟩ := hstd hkind
    · simp only [hkind, Nat.not_le_of_lt hfirst, Nat.not_le_of_lt hsecond, and_false, if_false]
    · have hwindow : ∀ start count, start + count ≤ 267 →
          (first.drop start).take count = (second.drop start).take count := by
        intro start count hle
        have hpart := congrArg (fun bits => (bits.drop start).take count) hsame
        simp only [List.drop_take, List.take_take, Nat.min_eq_left (show count ≤ 267 - start by omega)]
          at hpart
        exact hpart
      simp only [hkind, hfirst, hsecond, hwindow 3 8 (by decide), hwindow 11 256 (by decide)]
  · simp only [hkind, false_and, if_false]

section

variable {sdk : Sdk} {locals : Locals} {ctx : SignTransactionContext} {bits referenced : List Bool}

theorem functionShown_congr {first second : BodyBits} {functionId : Nat} {display : Display}
    (hfirst : amountLength * 8 ≤ first.bits.length) (hsecond : amountLength * 8 ≤ second.bits.length)
    (hamount : first.bits.take (amountLength * 8) = second.bits.take (amountLength * 8))
    (haddress : TokenFunction.ofId functionId = some .transfer →
      (∃ shown, setAmount (Bits.pack (first.bits.take (amountLength * 8))) amountLength normalFlag
        ctx.decimals ctx.ticker display = .ok shown) →
      ∀ wc address, addressAt ((first.advance (amountLength * 8)).need (addressLength * 8)).bits wc
        address = addressAt ((second.advance (amountLength * 8)).need (addressLength * 8)).bits wc
          address) :
    functionShown sdk locals ctx functionId first display =
      functionShown sdk locals ctx functionId second display := by
  unfold functionShown
  rw [BodyBits.amount_of_long hfirst, BodyBits.amount_of_long hsecond, ← hamount]
  cases hset : setAmount (Bits.pack (first.bits.take (amountLength * 8))) amountLength normalFlag
      ctx.decimals ctx.ticker display with
  | error e => rfl
  | ok shown =>
    cases hfunction : TokenFunction.ofId functionId with
    | none => rfl
    | some function =>
      cases function with
      | burn => rfl
      | transfer =>
        have hsame := haddress hfunction ⟨shown, hset⟩
        simp only [Except.toOption, Option.map_some, Option.bind_eq_bind, Option.bind_some, hsame]

theorem bodyShown_empty (hbits : bits.length < 32) (hreferenced : referenced.length < 32)
    (display : Display) :
    bodyShown sdk locals ctx bits referenced display = some (.transfer, display) :=
  if_pos ⟨hbits, hreferenced⟩

theorem bodyShown_first (h : 32 ≤ bits.length) (display : Display) :
    bodyShown sdk locals ctx bits referenced display =
      functionShown sdk locals ctx (Bits.number (bits.take 32)) ⟨bits.drop 32, some referenced⟩
        display := by
  unfold bodyShown
  rw [if_neg fun hempty => Nat.not_lt_of_le h hempty.1]
  simp only [BodyBits.need, if_neg (Nat.not_lt_of_le h)]
  rfl

theorem bodyShown_second (hbits : bits.length < 32) (h : 32 ≤ referenced.length)
    (display : Display) :
    bodyShown sdk locals ctx bits referenced display =
      functionShown sdk locals ctx (Bits.number (referenced.take 32)) ⟨referenced.drop 32, none⟩
        display := by
  unfold bodyShown
  rw [if_neg fun hempty => Nat.not_lt_of_le h hempty.2]
  simp only [BodyBits.need, if_pos hbits]
  rfl

end

end EverscaleLedger.Properties
