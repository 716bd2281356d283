import EverscaleLedger.Properties.Amounts
import EverscaleLedger.Properties.Sessions

/-! The amount line of `set_amount`, for the header of any first chunk: when it is
a terminated text inside its field. -/
namespace EverscaleLedger.Properties

open Library Source

/-! The conversion outside the range that `set_amount` expects. -/

theorem convert_beyond {amount : List UInt8} {decimals outSize : Nat}
    (h : 10 ^ 36 ≤ readUintBE amount) :
    convertHexAmountToDisplayable amount decimals amount.length outSize =
      .error (.thrown .invalidData) := by
  unfold convertHexAmountToDisplayable
  rw [loadMany_eq_ok.mpr ⟨Nat.le_refl _, List.take_length⟩, ok_bind]
  have htracks := shiftBytes_tracks amount
  cases hscratch : amount.foldlM Scratch.shiftByte
      ⟨List.replicate scratchSize 0, scratchSize - 2⟩ with
  | error e =>
    rw [hscratch] at htracks
    rw [htracks.1]
    rfl
  | ok s =>
    rw [hscratch] at htracks
    have hs : Scratch.Holds s (readUintBE amount) := htracks
    exact absurd hs.lt (Nat.not_lt_of_le h)

/-- The integer part runs past the end of scratch. -/
theorem integerDigits_fault {s : Scratch} {outSize count offset : Nat} {nonZero : Bool}
    {out : List UInt8} (hoffset : offset ≤ s.digits.length)
    (hpast : s.digits.length < offset + count) :
    integerDigits s outSize count offset nonZero out = .error .fault := by
  induction count generalizing offset nonZero out with
  | zero => omega
  | succ count ih =>
    rw [integerDigits]
    by_cases hend : offset = s.digits.length
    · have hdigit : s.digit offset = .error .fault := by
        unfold Scratch.digit readAt
        rw [List.getElem?_eq_none (Nat.le_of_eq hend.symm)]
      rw [hdigit]
      rfl
    · rw [digit_of_lt (by omega), ok_bind]
      split
      · exact ih (by omega) (by omega)
      · unfold putChar
        split
        · exact ih (by omega) (by omega)
        · rfl

/-- The number of decimals is subtracted in eight bits. -/
theorem convert_fault {amount : List UInt8} {decimals outSize : Nat}
    (hnumber : readUintBE amount < 10 ^ 36) (hdecimals : scratchSize < decimals)
    (hbyte : decimals < 256) :
    convertHexAmountToDisplayable amount decimals amount.length outSize = .error .fault := by
  unfold convertHexAmountToDisplayable
  rw [loadMany_eq_ok.mpr ⟨Nat.le_refl _, List.take_length⟩, ok_bind]
  have htracks := shiftBytes_tracks amount
  cases hscratch : amount.foldlM Scratch.shiftByte
      ⟨List.replicate scratchSize 0, scratchSize - 2⟩ with
  | error e =>
    rw [hscratch] at htracks
    exact absurd hnumber (Nat.not_lt_of_le htracks.2)
  | ok s =>
    rw [hscratch] at htracks
    have hs : Scratch.Holds s (readUintBE amount) := htracks
    rw [ok_bind, integerDigits_fault (Nat.zero_le _) ?_]
    · rfl
    · rw [hs.length]
      unfold scratchSize at *
      omega

/-! The line. -/

/-- How many characters the amount takes. -/
def textLength (number decimals : Nat) : Nat :=
  Decimal.wholeLength number decimals +
    if Decimal.fractionLength number decimals = 0 then 0
    else 1 + Decimal.fractionLength number decimals

theorem length_amountText {decimals number : Nat} {whole fraction : List Nat}
    (h : Decimal.Canonical number decimals whole fraction) :
    (amountText whole fraction).length = textLength number decimals := by
  unfold amountText textLength
  rw [List.length_append, length_digitChars, h.length_whole, ← h.length_fraction]
  simp only [List.length_eq_zero_iff]
  split
  · rfl
  · rw [List.length_cons, length_digitChars, Nat.add_comm 1]

theorem length_of_canonicalText {decimals number : Nat} {text : List UInt8}
    (h : CanonicalText decimals text number) : text.length = textLength number decimals := by
  obtain ⟨-, -, whole, fraction, hcanonical, rfl⟩ := h
  exact length_amountText hcanonical

theorem canonicalText_ne_zero {decimals number : Nat} {text : List UInt8}
    (h : CanonicalText decimals text number) : ∀ c ∈ text, c ≠ 0 := by
  obtain ⟨-, -, whole, fraction, hcanonical, rfl⟩ := h
  have hchars : ∀ {digits : List Nat}, Decimal.Digits digits → ∀ c ∈ digitChars digits, c ≠ 0 := by
    rintro digits hdigits c hc rfl
    obtain ⟨digit, hdigit, hzero⟩ := List.mem_map.mp hc
    have hvalue := congrArg UInt8.toNat hzero
    rw [digitChar_toNat (hdigits digit hdigit)] at hvalue
    change digit + 48 = 0 at hvalue
    omega
  intro c hc
  obtain hc | hc := List.mem_append.mp hc
  · exact hchars hcanonical.whole_digits c hc
  · split at hc
    · exact absurd hc List.not_mem_nil
    · obtain rfl | hc := List.mem_cons.mp hc
      · decide
      · exact hchars hcanonical.fraction_digits c hc

/-- What the amount line says: the amount and the ticker, or that all of the
balance is sent. -/
def IsAmountLine (flags decimals number : Nat) (ticker line : List UInt8) : Prop :=
  if flags = normalFlag then
    ∃ text, CanonicalText decimals text number ∧ line = text ++ ascii [' '] ++ ticker
  else line = if flags = allBalanceFlag then allBalanceText else allBalanceAndDeleteText

/-- The call throws, or leaves a terminated line in the field. -/
def SafeLine (flags decimals number : Nat) (ticker : List UInt8) (result : Outcome Display) :
    Prop :=
  match result with
  | .error (.thrown _) => True
  | .error .fault => False
  | .ok shown => ∃ field, shown.amountStr = some field ∧ field.length = amountStrSize ∧
      0 ∈ field ∧ IsAmountLine flags decimals number ticker (cString field)

theorem cString_of_ne_zero {text : List UInt8} (h : ∀ c ∈ text, c ≠ 0) : cString text = text :=
  List.takeWhile_eq_self_iff.mpr fun c hc => by simpa using h c hc

/-- The zeros that fill a field are not part of its text. -/
theorem cString_append_zeros (text : List UInt8) (count : Nat) :
    cString (text ++ List.replicate count 0) = cString text := by
  unfold cString
  induction text with
  | nil =>
    cases count with
    | zero => rfl
    | succ count => simp [List.replicate_succ]
  | cons c rest ih =>
    rw [List.cons_append]
    by_cases hzero : c = 0
    · simp [hzero]
    · rw [List.takeWhile_cons_of_pos (by simpa using hzero), ih,
        List.takeWhile_cons_of_pos (by simpa using hzero)]

/-- A text that is copied to a cleared field. -/
theorem store_line {text field : List UInt8} (htext : ∀ c ∈ text, c ≠ 0)
    (h : storeMany (List.replicate amountStrSize 0) 0 text = .ok field) :
    field.length = amountStrSize ∧ (0 ∈ field ↔ text.length ≠ amountStrSize) ∧
      cString field = text := by
  obtain ⟨hle, rfl⟩ := storeMany_eq_ok.mp h
  rw [List.length_replicate, Nat.zero_add] at hle
  rw [List.take_zero, List.nil_append, Nat.zero_add, List.drop_replicate]
  refine ⟨?_, ?_, (cString_append_zeros text _).trans (cString_of_ne_zero htext)⟩
  · rw [List.length_append, List.length_replicate]
    omega
  · rw [List.mem_append, List.mem_replicate]
    constructor
    · rintro (hzero | ⟨hne, -⟩)
      · exact absurd rfl (htext 0 hzero)
      · omega
    · exact fun hne => Or.inr ⟨by omega, rfl⟩

theorem cString_ne_zero (text : List UInt8) : ∀ c ∈ cString text, c ≠ 0 := by
  intro c hc
  simpa using List.mem_takeWhile_imp hc

theorem stringLength_of_mem {text : List UInt8} (h : 0 ∈ text) :
    stringLength text = .ok (cString text).length := if_pos h

theorem take_cString (text : List UInt8) : text.take (cString text).length = cString text :=
  List.prefix_iff_eq_take.mp (List.takeWhile_prefix _) |>.symm

/-- The field after a line was copied to it. -/
def amountField (line : List UInt8) : List UInt8 :=
  line ++ List.replicate (amountStrSize - line.length) 0

theorem storeMany_line {line : List UInt8} (h : line.length ≤ amountStrSize) :
    storeMany (List.replicate amountStrSize 0) 0 line = .ok (amountField line) := by
  rw [storeMany_eq_ok, List.length_replicate, Nat.zero_add]
  refine ⟨h, ?_⟩
  rw [List.take_zero, List.nil_append, List.drop_replicate]
  rfl

/-- The line of an amount that scratch can hold. -/
theorem setAmount_normal_eq {amount ticker : List UInt8} {decimals : Nat}
    (hdecimals : decimals ≤ 37) (hticker : 0 ∈ ticker) (hnumber : readUintBE amount < 10 ^ 36) :
    ∃ text, CanonicalText decimals text (readUintBE amount) ∧ ∀ display : Display,
      setAmount amount amount.length normalFlag decimals ticker display = (do
        validate (amountStrSize ≥ text.length + 1 + (cString ticker).length) .invalidMessage
        pure { display with amountStr := some (amountField
          (text ++ ascii [' '] ++ cString ticker)) }) := by
  have htracks := convert_tracks (Nat.le_refl amount.length) hdecimals
    (show scratchSize + 2 ≤ amountStrSize by decide)
  rw [List.take_length] at htracks
  cases htext : convertHexAmountToDisplayable amount decimals amount.length amountStrSize with
  | error e =>
    rw [htext] at htracks
    exact absurd hnumber (Nat.not_lt_of_le htracks.2)
  | ok text =>
    rw [htext] at htracks
    refine ⟨text, htracks, fun display => ?_⟩
    unfold setAmount
    rw [if_pos rfl, htext, ok_bind, stringLength_of_mem hticker, ok_bind, take_cString]
    by_cases hroom : amountStrSize ≥ text.length + 1 + (cString ticker).length
    · rw [validate_of_true hroom, ok_bind, ok_bind, storeMany_line]
      · rfl
      · rw [List.length_append, List.length_append]
        exact hroom
    · rw [validate, require, if_neg hroom]
      rfl

theorem line_ne_zero {text ticker : List UInt8} {decimals number : Nat}
    (h : CanonicalText decimals text number) :
    ∀ c ∈ text ++ ascii [' '] ++ cString ticker, c ≠ 0 := by
  intro c hc
  obtain hc | hc := List.mem_append.mp hc
  · obtain hc | hc := List.mem_append.mp hc
    · exact canonicalText_ne_zero h c hc
    · rw [List.mem_singleton.mp hc]
      decide
  · exact cString_ne_zero ticker c hc

/-- The amount and the ticker have a line in the field. -/
structure AmountFits (decimals : Nat) (ticker : List UInt8) (number : Nat) : Prop where
  decimals_le : decimals ≤ 37
  terminated : 0 ∈ ticker
  number_lt : number < 10 ^ 36
  length_le : textLength number decimals + 1 + (cString ticker).length ≤ amountStrSize

/-- How a plain amount is shown: with a line that fits, or not at all. -/
inductive NormalAmount (decimals : Nat) (ticker : List UInt8) (number : Nat) (display : Display)
    (result : Outcome Display) : Prop
  | shown {text : List UInt8} (hfits : AmountFits decimals ticker number)
      (hcanonical : CanonicalText decimals text number)
      (hset : result = .ok { display with
        amountStr := some (amountField (text ++ ascii [' '] ++ cString ticker)) })
  | thrown {error : Err} (hrefused : number < 10 ^ 36 → decimals ≤ 37 ∧ 0 ∈ ticker ∧
        amountStrSize < textLength number decimals + 1 + (cString ticker).length)
      (hset : result = .error (.thrown error))
  | fault (hnumber : number < 10 ^ 36) (hpast : 37 < decimals ∨ 0 ∉ ticker)
      (hset : result = .error .fault)

theorem setAmount_normal_ends {amount ticker : List UInt8} {decimals : Nat} (hbyte : decimals < 256)
    (display : Display) : NormalAmount decimals ticker (readUintBE amount) display
      (setAmount amount amount.length normalFlag decimals ticker display) := by
  obtain hnumber | hbeyond := Nat.lt_or_ge (readUintBE amount) (10 ^ 36)
  rotate_left
  · apply NormalAmount.thrown fun hlt => absurd hlt (Nat.not_lt_of_le hbeyond)
    unfold setAmount
    rw [if_pos rfl, convert_beyond hbeyond]
    rfl
  obtain hbig | hsmall := Nat.lt_or_ge 37 decimals
  · apply NormalAmount.fault hnumber (Or.inl hbig)
    unfold setAmount
    rw [if_pos rfl, convert_fault hnumber hbig hbyte]
    rfl
  by_cases hzero : 0 ∈ ticker
  · obtain ⟨text, hcanonical, hset⟩ := setAmount_normal_eq hsmall hzero hnumber
    have hlength := length_of_canonicalText hcanonical
    rw [hset display]
    by_cases hroom : amountStrSize ≥ text.length + 1 + (cString ticker).length
    · apply NormalAmount.shown ⟨hsmall, hzero, hnumber, hlength ▸ hroom⟩ hcanonical
      rw [validate_of_true hroom, ok_bind]
      rfl
    · apply NormalAmount.thrown fun _ => ⟨hsmall, hzero, hlength ▸ Nat.lt_of_not_le hroom⟩
      rw [validate, require, if_neg hroom]
      rfl
  · apply NormalAmount.fault hnumber (Or.inr hzero)
    have htracks := convert_tracks (Nat.le_refl amount.length) hsmall
      (show scratchSize + 2 ≤ amountStrSize by decide)
    unfold setAmount
    rw [if_pos rfl]
    cases htext : convertHexAmountToDisplayable amount decimals amount.length amountStrSize with
    | error e =>
      rw [htext, List.take_length] at htracks
      exact absurd hnumber (Nat.not_lt_of_le htracks.2)
    | ok text =>
      rw [ok_bind, stringLength, if_neg hzero]
      rfl

/-- The line of an amount is safe unless scratch or the ticker is read past its
end, or the text fills the field. -/
theorem setAmount_normal_safe_iff {amount ticker : List UInt8} {decimals : Nat} {display : Display}
    (hdecimals : decimals < 256) :
    SafeLine normalFlag decimals (readUintBE amount) (cString ticker)
        (setAmount amount amount.length normalFlag decimals ticker display) ↔
      (readUintBE amount < 10 ^ 36 → decimals ≤ 37 ∧ 0 ∈ ticker ∧
        textLength (readUintBE amount) decimals + 1 + (cString ticker).length ≠ 40) := by
  cases setAmount_normal_ends hdecimals display with
  | @shown text hfits hcanonical hset =>
    have hlength : (text ++ ascii [' '] ++ cString ticker).length =
        textLength (readUintBE amount) decimals + 1 + (cString ticker).length := by
      rw [List.length_append, List.length_append, length_of_canonicalText hcanonical]
      rfl
    obtain ⟨hsize, hterminated, hread⟩ :=
      store_line (line_ne_zero hcanonical) (storeMany_line (hlength ▸ hfits.length_le))
    rw [hset]
    constructor
    · rintro ⟨field, hfield, -, hnul, -⟩ -
      obtain rfl := Option.some.inj hfield
      exact ⟨hfits.decimals_le, hfits.terminated, hlength ▸ hterminated.mp hnul⟩
    · intro h
      refine ⟨_, rfl, hsize, hterminated.mpr (hlength ▸ (h hfits.number_lt).2.2), ?_⟩
      unfold IsAmountLine
      rw [if_pos rfl, hread]
      exact ⟨text, hcanonical, rfl⟩
  | thrown hrefused hset =>
    rw [hset]
    apply iff_of_true trivial
    intro hnumber
    obtain ⟨hsmall, hzero, hlong⟩ := hrefused hnumber
    exact ⟨hsmall, hzero, Nat.ne_of_gt hlong⟩
  | fault hnumber hpast hset =>
    rw [hset]
    apply iff_of_false id
    intro h
    obtain ⟨hsmall, hzero, -⟩ := h hnumber
    exact hpast.elim (Nat.not_lt_of_le hsmall) (fun hopen => hopen hzero)

theorem setAmount_safe_iff {amount ticker : List UInt8} {flags decimals : Nat} {display : Display}
    (hdecimals : decimals < 256) :
    SafeLine flags decimals (readUintBE amount) (cString ticker)
        (setAmount amount amount.length flags decimals ticker display) ↔
      (flags = normalFlag → readUintBE amount < 10 ^ 36 → decimals ≤ 37 ∧ 0 ∈ ticker ∧
        textLength (readUintBE amount) decimals + 1 + (cString ticker).length ≠ 40) := by
  by_cases hnormal : flags = normalFlag
  · subst hnormal
    rw [setAmount_normal_safe_iff hdecimals]
    exact ⟨fun h _ => h, fun h => h rfl⟩
  refine iff_of_true ?_ fun h => absurd h hnormal
  have hfixed : ∀ text : List UInt8, (∀ c ∈ text, c ≠ 0) → text.length < amountStrSize →
      (text = if flags = allBalanceFlag then allBalanceText else allBalanceAndDeleteText) →
      ∀ field, storeMany (List.replicate amountStrSize 0) 0 text = .ok field →
      SafeLine flags decimals (readUintBE amount) (cString ticker)
        (.ok { display with amountStr := some field }) := by
    intro text htext hlt hline field hfield
    obtain ⟨hsize, hterminated, hread⟩ := store_line htext hfield
    refine ⟨field, rfl, hsize, hterminated.mpr (Nat.ne_of_lt hlt), ?_⟩
    unfold IsAmountLine
    rw [if_neg hnormal, hread]
    exact hline
  unfold setAmount
  rw [if_neg hnormal]
  by_cases hall : flags = allBalanceFlag
  · rw [if_pos hall]
    exact hfixed allBalanceText (by decide) (by decide) (if_pos hall).symm _ rfl
  rw [if_neg hall]
  by_cases hdelete : flags = allBalanceAndDeleteFlag
  · rw [if_pos hdelete]
    exact hfixed allBalanceAndDeleteText (by decide) (by decide) (if_neg hall).symm _ rfl
  rw [if_neg hdelete]
  trivial

/-! The header of a first chunk. -/

/-- The ticker of a first chunk, as far as it is printed. -/
def FirstChunk.tickerText (cdata : List UInt8) : List UInt8 := cString (FirstChunk.ticker cdata)

/-- The amount of a plain transfer has a safe line under this header: scratch has
the decimals, the ticker ends inside its field, and the line does not fill the
amount field to the last byte. Longer lines are refused. -/
def LineFits (cdata : List UInt8) (number : Nat) : Prop :=
  (FirstChunk.decimals cdata).toNat ≤ 37 ∧
    (FirstChunk.tickerLen cdata < 10 ∨ 0 ∈ FirstChunk.ticker cdata) ∧
    textLength number (FirstChunk.decimals cdata).toNat + 1 +
      (FirstChunk.tickerText cdata).length ≠ 40

/-- Under the header of an accepted first chunk, `set_amount` leaves a terminated
line in its field or throws, exactly when the line of a plain amount fits. -/
theorem amount_line_safe_iff {sdk : Sdk} {device held : Device} {cdata : List UInt8}
    (hreceived : receiveChunk sdk cdata true device = .ok held) (amount : List UInt8) (flags : Nat)
    (display : Display) :
    let ctx := SignTransactionContext.ofData held.dataContext
    SafeLine flags ctx.decimals (readUintBE amount) (FirstChunk.tickerText cdata)
        (setAmount amount amount.length flags ctx.decimals ctx.ticker display) ↔
      (flags = normalFlag → readUintBE amount < 10 ^ 36 → LineFits cdata (readUintBE amount)) := by
  intro ctx
  have hheader := (open_of_first hreceived).isolated.header
  have hdecimals : ctx.decimals = (FirstChunk.decimals cdata).toNat := by
    have hread := hheader.decimals
    exact congrArg UInt8.toNat (List.singleton_inj.mp hread)
  have hticker : ctx.ticker = FirstChunk.ticker cdata ++
      List.replicate (maxTickerLen - FirstChunk.tickerLen cdata) 0 := hheader.ticker
  have hprinted : cString ctx.ticker = FirstChunk.tickerText cdata :=
    (congrArg cString hticker).trans (cString_append_zeros _ _)
  have hmem : 0 ∈ ctx.ticker ↔ FirstChunk.tickerLen cdata < 10 ∨ 0 ∈ FirstChunk.ticker cdata := by
    rw [hticker, List.mem_append, List.mem_replicate, or_comm]
    refine or_congr_left ⟨fun h => ?_, fun h => ⟨?_, rfl⟩⟩
    · have hne := h.1
      unfold maxTickerLen at hne
      omega
    · unfold maxTickerLen
      omega
  have hsafe := @setAmount_safe_iff amount ctx.ticker flags _ display (show ctx.decimals < 256 from hdecimals ▸ UInt8.toNat_lt _)
  rw [hprinted] at hsafe
  rw [hsafe, hmem, hdecimals]
  rfl

/-- The header of a WALLET_V3 transaction of the first account, with its decimals
and its ticker. -/
def tickerChunk (decimals : UInt8) (ticker : List UInt8) : List UInt8 :=
  [0, 0, 0, 0, 0, decimals, UInt8.ofNat ticker.length] ++ ticker ++ [0]

/-- The header of the test suite: nine decimals of EVER. -/
theorem amount_line_safe_nine : ∃ held : Device,
    receiveChunk testSdk (tickerChunk 9 (ascii ['E', 'V', 'E', 'R'])) true .initial = .ok held ∧
    SafeLine normalFlag (SignTransactionContext.ofData held.dataContext).decimals
      (readUintBE [0x3B, 0x9A, 0xCA, 0x00])
      (FirstChunk.tickerText (tickerChunk 9 (ascii ['E', 'V', 'E', 'R'])))
      (setAmount [0x3B, 0x9A, 0xCA, 0x00] 4 normalFlag
        (SignTransactionContext.ofData held.dataContext).decimals
        (SignTransactionContext.ofData held.dataContext).ticker Display.untouched) := by
  have hreceived : Succeeds (receiveChunk testSdk (tickerChunk 9 (ascii ['E', 'V', 'E', 'R']))
      true .initial) fun _ => True := by
    decide +kernel
  obtain ⟨held, hreceived, -⟩ := hreceived.exists
  exact ⟨held, hreceived, (amount_line_safe_iff hreceived [0x3B, 0x9A, 0xCA, 0x00] normalFlag
    Display.untouched).mpr fun _ _ => ⟨by decide, Or.inl (by decide), by decide +kernel⟩⟩

/-- The line of one unit is not safe under this header. -/
def LineUnsafe (cdata : List UInt8) : Prop :=
  ∃ held : Device, receiveChunk testSdk cdata true .initial = .ok held ∧
    ¬ SafeLine normalFlag (SignTransactionContext.ofData held.dataContext).decimals
      (readUintBE [1]) (FirstChunk.tickerText cdata)
      (setAmount [1] 1 normalFlag (SignTransactionContext.ofData held.dataContext).decimals
        (SignTransactionContext.ofData held.dataContext).ticker Display.untouched)

/-- The call faults or leaves a field without a terminator. -/
def Unterminated (result : Outcome Display) : Bool :=
  match result with
  | .error .fault => true
  | .error (.thrown _) => false
  | .ok shown => shown.amountStr.all fun field => 0 ∉ field

theorem lineUnsafe_of {cdata : List UInt8}
    (h : Succeeds (receiveChunk testSdk cdata true .initial) fun held =>
      Unterminated (setAmount [1] 1 normalFlag
        (SignTransactionContext.ofData held.dataContext).decimals
        (SignTransactionContext.ofData held.dataContext).ticker Display.untouched) = true) :
    LineUnsafe cdata := by
  obtain ⟨held, hreceived, hbad⟩ := h.exists
  refine ⟨held, hreceived, fun hsafe => ?_⟩
  unfold Unterminated at hbad
  unfold SafeLine at hsafe
  split at hsafe
  next hresult =>
    rw [hresult] at hbad
    cases hbad
  next => exact hsafe
  next shown hresult =>
    obtain ⟨field, hfield, -, hnul, -⟩ := hsafe
    rw [hresult] at hbad
    simp [hfield, hnul] at hbad

/-- Thirty-eight decimals, a ticker that fills its field, and a line of forty
characters. -/
theorem amount_line_unsafe :
    LineUnsafe (tickerChunk 38 (ascii ['E'])) ∧
    LineUnsafe (tickerChunk 9 (List.replicate 10 0x45)) ∧
    LineUnsafe (tickerChunk 30 (List.replicate 7 0x45)) :=
  ⟨lineUnsafe_of (by decide +kernel), lineUnsafe_of (by decide +kernel),
    lineUnsafe_of (by decide +kernel)⟩

end EverscaleLedger.Properties
