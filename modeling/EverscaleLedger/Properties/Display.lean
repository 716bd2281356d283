import EverscaleLedger.Library.Bits
import EverscaleLedger.Properties.Cells
import EverscaleLedger.Source.Handlers

/-! Which strings the setters of `message.c` write. A setter that succeeds leaves
a text in its field that does not start with the terminator, and leaves the other
fields alone. -/
namespace EverscaleLedger.Properties

open Library Source

/-- The field was written, and the text in it is not empty. -/
def Shown (field : Option (List UInt8)) : Prop := ∃ bytes, field = some bytes ∧ cString bytes ≠ []

/-- All strings on the screen of a flow were written. -/
def FlowShown (flow : Flow) (display : Display) : Prop :=
  match flow with
  | .transfer => Shown display.amountStr ∧ Shown display.addressStr
  | .deploy => Shown display.addressStr
  | .confirm => Shown display.transactionIdStr
  | .burn => Shown display.amountStr

/-- A text that starts with a character. -/
def StartsText (text : List UInt8) : Prop := ∃ first rest, text = first :: rest ∧ first ≠ 0

theorem StartsText.append {text : List UInt8} (h : StartsText text) (rest : List UInt8) :
    StartsText (text ++ rest) := by
  obtain ⟨first, tail, rfl, hfirst⟩ := h
  exact ⟨first, tail ++ rest, rfl, hfirst⟩

theorem StartsText.shown {text : List UInt8} (h : StartsText text) : Shown (some text) := by
  obtain ⟨first, rest, rfl, hfirst⟩ := h
  refine ⟨_, rfl, ?_⟩
  simp [cString, hfirst]

theorem not_shown_none : ¬ Shown none := by
  rintro ⟨bytes, h, -⟩
  cases h

/-! Amounts. -/

/-- The digits under conversion fit four bits. -/
def Scratch.Small (s : Scratch) : Prop := ∀ digit ∈ s.digits, digit < 16

theorem shift_small {s next : Scratch} {shiftedIn : Nat} (hs : Scratch.Small s)
    (hin : shiftedIn ≤ 1) (h : s.shift shiftedIn = .ok next) : Scratch.Small next := by
  simp only [Scratch.shift, bind_eq_ok, pure_eq_ok] at h
  obtain ⟨smin, hsmin, rfl⟩ := h
  have hle : smin ≤ s.smin := by
    split at hsmin
    · simp only [bind_eq_ok, pure_eq_ok] at hsmin
      obtain ⟨_, _, rfl⟩ := hsmin
      omega
    · rw [pure_eq_ok] at hsmin
      omega
  intro digit hdigit
  obtain ⟨k, hk, rfl⟩ := List.mem_iff_getElem.mp hdigit
  simp only [List.getElem_mapIdx, List.length_mapIdx] at hk ⊢
  split
  · apply Nat.or_lt_two_pow (n := 4)
    · exact Nat.lt_of_le_of_lt Nat.and_le_right (by decide)
    · split
      · split <;> omega
      · omega
  · rw [if_neg (by omega)]
    exact hs _ (List.getElem_mem _)

theorem foldl_shiftByte_small {bytes : List UInt8} {s next : Scratch} (hs : Scratch.Small s)
    (h : bytes.foldlM Scratch.shiftByte s = .ok next) : Scratch.Small next := by
  apply foldlM_invariant Scratch.Small _ _ bytes s next hs h
  intro state byte result hstate hbyte
  apply foldlM_invariant Scratch.Small _ _ _ state result hstate hbyte
  intro state j result hstate hshift
  refine shift_small hstate ?_ hshift
  split <;> omega

theorem putChar_ok {outSize c : Nat} {out result : List UInt8}
    (h : putChar outSize out c = .ok result) : result = out ++ [UInt8.ofNat c] := by
  unfold putChar at h
  split at h
  · injection h with h
    exact h.symm
  · cases h

theorem startsText_digit {digit : Nat} (h : digit < 16) :
    StartsText [UInt8.ofNat (digit + '0'.toNat)] := by
  refine ⟨_, [], rfl, ?_⟩
  intro hzero
  have hvalue := congrArg UInt8.toNat hzero
  rw [UInt8.toNat_ofNat'] at hvalue
  change (digit + 48) % 256 = 0 at hvalue
  omega

theorem integerDigits_ok {s : Scratch} {outSize count offset last : Nat} {nonZero : Bool}
    {out text : List UInt8} (hs : Scratch.Small s) (hout : out = [] ∨ StartsText out)
    (h : integerDigits s outSize count offset nonZero out = .ok (last, text)) :
    text = [] ∨ StartsText text := by
  induction count generalizing offset nonZero out with
  | zero =>
    rw [integerDigits, pure_eq_ok, Prod.mk.injEq] at h
    exact h.2 ▸ hout
  | succ count ih =>
    simp only [integerDigits, bind_eq_ok, Scratch.digit, readAt_eq_ok] at h
    obtain ⟨digit, hdigit, h⟩ := h
    split at h
    · exact ih hout h
    · simp only [bind_eq_ok] at h
      obtain ⟨next, hput, h⟩ := h
      refine ih (Or.inr ?_) h
      rw [putChar_ok hput]
      obtain rfl | hout := hout
      · exact startsText_digit (hs digit (List.mem_of_getElem? hdigit))
      · exact hout.append _

theorem fractionDigits_ok {s : Scratch} {outSize count offset : Nat} {comma : Bool}
    {out text : List UInt8} (hout : StartsText out)
    (h : fractionDigits s outSize count offset comma out = .ok text) : StartsText text := by
  induction count generalizing offset comma out with
  | zero =>
    rw [fractionDigits, pure_eq_ok] at h
    exact h ▸ hout
  | succ count ih =>
    simp only [fractionDigits, bind_eq_ok] at h
    obtain ⟨zeros, _, h⟩ := h
    split at h
    · rw [pure_eq_ok] at h
      exact h ▸ hout
    · simp only [bind_eq_ok] at h
      obtain ⟨first, hcomma, digit, _, second, hput, h⟩ := h
      refine ih ?_ h
      rw [putChar_ok hput]
      split at hcomma
      · rw [pure_eq_ok] at hcomma
        exact (hcomma ▸ hout).append _
      · rw [putChar_ok hcomma]
        exact (hout.append _).append _

theorem convertHexAmountToDisplayable_ok {amount text : List UInt8}
    {decimals amountLength outSize : Nat}
    (h : convertHexAmountToDisplayable amount decimals amountLength outSize = .ok text) :
    StartsText text := by
  simp only [convertHexAmountToDisplayable, bind_eq_ok] at h
  obtain ⟨bytes, _, scratch, hscratch, ⟨offset, digits⟩, hdigits, out, hout, h⟩ := h
  have hsmall : Scratch.Small scratch := by
    refine foldl_shiftByte_small ?_ hscratch
    intro digit hdigit
    rw [List.eq_of_mem_replicate hdigit]
    decide
  refine fractionDigits_ok ?_ h
  split at hout
  next hempty =>
    rw [putChar_ok hout, List.eq_nil_of_length_eq_zero hempty]
    exact startsText_digit (show 0 < 16 by decide)
  next hempty =>
    rw [pure_eq_ok] at hout
    obtain hnil | htext := integerDigits_ok hsmall (Or.inl rfl) hdigits
    · simp [hnil] at hempty
    · exact hout ▸ htext

/-- A text at the start of a field that was cleared. -/
theorem storeMany_startsText {object text field : List UInt8} (htext : StartsText text)
    (h : storeMany object 0 text = .ok field) : StartsText field := by
  obtain ⟨-, rfl⟩ := storeMany_eq_ok.mp h
  rw [List.take_zero, List.nil_append]
  exact htext.append _

theorem setAmount_ok {amount ticker : List UInt8} {amountLength flags decimals : Nat}
    {display result : Display}
    (h : setAmount amount amountLength flags decimals ticker display = .ok result) :
    Shown result.amountStr ∧ result.addressStr = display.addressStr ∧
      result.transactionIdStr = display.transactionIdStr := by
  unfold setAmount at h
  split at h
  · simp only [bind_eq_ok, pure_eq_ok] at h
    obtain ⟨text, htext, _, _, _, _, field, hfield, rfl⟩ := h
    have hstarts := ((convertHexAmountToDisplayable_ok htext).append (ascii [' '])).append
    exact ⟨(storeMany_startsText (hstarts _) hfield).shown, rfl, rfl⟩
  split at h
  · simp only [bind_eq_ok, pure_eq_ok] at h
    obtain ⟨_, _, field, hfield, rfl⟩ := h
    exact ⟨(storeMany_startsText ⟨_, _, rfl, by decide⟩ hfield).shown, rfl, rfl⟩
  split at h
  · simp only [bind_eq_ok, pure_eq_ok] at h
    obtain ⟨_, _, field, hfield, rfl⟩ := h
    exact ⟨(storeMany_startsText ⟨_, _, rfl, by decide⟩ hfield).shown, rfl, rfl⟩
  · cases h

/-! Addresses and transaction ids. -/

theorem workchainText_starts (wc : UInt8) : StartsText (workchainText wc) := by
  have hwc := @Bits.forall_byte (fun wc => (workchainText wc).head?.any (· ≠ 0) = true)
    (by decide +kernel) wc
  cases htext : workchainText wc with
  | nil =>
    rw [htext] at hwc
    cases hwc
  | cons first rest =>
    rw [htext] at hwc
    exact ⟨first, rest, rfl, by simpa using hwc⟩

theorem setDstAddress_shown (sdk : Sdk) (wc : UInt8) (address : List UInt8) (display : Display) :
    Shown (setDstAddress sdk wc address display).addressStr :=
  (((workchainText_starts wc).append _).append _).shown

theorem setTransactionId_ok {sdk : Sdk} {transactionId : List UInt8} {display result : Display}
    (hlength : 0 < transactionId.length)
    (h : setTransactionId sdk transactionId display = .ok result) :
    Shown result.transactionIdStr := by
  simp only [setTransactionId, bind_eq_ok, pure_eq_ok] at h
  obtain ⟨field, hfield, rfl⟩ := h
  have hstarts : StartsText (sdk.formatHex transactionId) := by
    have hhex := sdk.formatHex_length transactionId
    cases htext : sdk.formatHex transactionId with
    | nil =>
      rw [htext, List.length_nil] at hhex
      omega
    | cons first rest =>
      refine ⟨first, rest, rfl, sdk.formatHex_ne_zero transactionId first ?_⟩
      rw [htext]
      exact List.mem_cons_self
  exact (storeMany_startsText (hstarts.append _) hfield).shown

end EverscaleLedger.Properties
