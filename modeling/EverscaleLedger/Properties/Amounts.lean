import EverscaleLedger.Library.Bits
import EverscaleLedger.Library.Decimal
import EverscaleLedger.Source.ByteStream
import EverscaleLedger.Source.Utils

/-! The text of an amount: the double-dabble loop keeps the decimal digits of what
it has read, and the two digit loops print them in canonical notation. -/
namespace EverscaleLedger.Properties

open Library Source

/-- The digits are those of a number below `10 ^ 36`, and none in front of `smin`
has been reached. -/
structure Scratch.Holds (s : Scratch) (number : Nat) : Prop where
  length : s.digits.length = scratchSize
  digits : Decimal.Digits s.digits
  ahead : ∀ k < s.smin, s.digits.getD k 0 = 0
  smin_pos : 0 < s.smin
  smin_lt : s.smin < scratchSize
  value : Decimal.value s.digits = number

/-- The digit `d` with three added when it is five or more. -/
def adjustedDigit (digit : Nat) : Nat := if 5 ≤ digit then digit + 3 else digit

theorem adjustedDigit_carry (digit : Nat) : 8 ≤ adjustedDigit digit ↔ 5 ≤ digit := by
  unfold adjustedDigit
  split <;> omega

theorem adjustedDigit_double : ∀ digit < 10, ∀ carry < 2,
    ((adjustedDigit digit <<< 1) &&& 0xF) ||| carry = 2 * digit % 10 + carry := by
  decide

theorem carryOut_drop (carryIn : Nat) (digits : List Nat) (k : Nat) :
    Decimal.carryOut carryIn (digits.drop k) =
      if k < digits.length then (if 5 ≤ digits.getD k 0 then 1 else 0) else carryIn := by
  split
  next hk =>
    rw [List.drop_eq_getElem_cons hk, Decimal.carryOut, List.getD_eq_getElem digits 0 hk]
  next hk =>
    rw [List.drop_eq_nil_of_le (Nat.le_of_not_lt hk), Decimal.carryOut]

section

variable {s : Scratch} {number shiftedIn : Nat}

theorem adjusted_eq (hs : Scratch.Holds s number) :
    s.digits.mapIdx (fun k digit => if s.smin ≤ k ∧ digit ≥ 5 then digit + 3 else digit) =
      s.digits.map adjustedDigit := by
  apply List.ext_getElem (by simp)
  intro k hk _
  rw [List.length_mapIdx] at hk
  rw [List.getElem_mapIdx, List.getElem_map, adjustedDigit]
  by_cases hreached : s.smin ≤ k
  · simp [hreached]
  · have hzero := hs.ahead k (Nat.lt_of_not_le hreached)
    rw [List.getD_eq_getElem s.digits 0 hk] at hzero
    simp [hreached, hzero]

theorem getD_map_adjusted (digits : List Nat) (k : Nat) :
    (digits.map adjustedDigit).getD k 0 = adjustedDigit (digits.getD k 0) := by
  rw [List.getD_eq_getElem?_getD, List.getD_eq_getElem?_getD, List.getElem?_map]
  cases digits[k]? with
  | none => rfl
  | some digit => rfl

/-- No carry comes into a digit in front of the new `smin`. -/
theorem carry_ahead (hs : Scratch.Holds s number) {smin k : Nat} (hsmin : smin ≤ s.smin)
    (hcarry : smin = s.smin → s.digits.getD s.smin 0 < 5) (hk : k < smin) :
    Decimal.carryOut shiftedIn (s.digits.drop (k + 1)) = 0 := by
  have hlt := hs.smin_lt
  have hnext : s.digits.getD (k + 1) 0 < 5 := by
    by_cases hk' : k + 1 = s.smin
    · exact hk' ▸ hcarry (by omega)
    · rw [hs.ahead (k + 1) (by omega)]
      decide
  rw [carryOut_drop, hs.length, if_pos (by omega), if_neg (Nat.not_le_of_lt hnext)]

/-- In front of the new `smin` there is nothing to double. -/
theorem doubled_eq (hs : Scratch.Holds s number) (hshiftedIn : shiftedIn ≤ 1) {smin : Nat}
    (hsmin : smin ≤ s.smin) (hcarry : smin = s.smin → s.digits.getD s.smin 0 < 5) :
    (s.digits.map adjustedDigit).mapIdx (fun k digit =>
      if smin ≤ k then
        ((digit <<< 1) &&& 0xF) |||
          if k + 1 < scratchSize then
            (if (s.digits.map adjustedDigit).getD (k + 1) 0 ≥ 8 then 1 else 0)
          else shiftedIn
      else digit) = Decimal.double shiftedIn s.digits := by
  apply List.ext_getElem (by simp)
  intro k hk _
  rw [List.length_mapIdx, List.length_map] at hk
  rw [List.getElem_mapIdx, List.getElem_map, Decimal.getElem_double shiftedIn s.digits k hk,
    getD_map_adjusted]
  simp only [ge_iff_le, adjustedDigit_carry]
  split
  next =>
    have hdrop := carryOut_drop shiftedIn s.digits (k + 1)
    rw [hs.length] at hdrop
    rw [hdrop]
    apply adjustedDigit_double _ (hs.digits _ (List.getElem_mem hk)) _
    split
    · split <;> decide
    · omega
  next hbelow =>
    have hzero := hs.ahead k (by omega)
    rw [List.getD_eq_getElem s.digits 0 hk] at hzero
    rw [carry_ahead hs hsmin hcarry (Nat.lt_of_not_le hbelow), hzero]
    rfl

theorem shift_eq (hs : Scratch.Holds s number) (hshiftedIn : shiftedIn ≤ 1) :
    s.shift shiftedIn =
      if 5 ≤ s.digits.getD s.smin 0 then
        if 1 < s.smin then .ok ⟨Decimal.double shiftedIn s.digits, s.smin - 1⟩
        else .error (.thrown .invalidData)
      else .ok ⟨Decimal.double shiftedIn s.digits, s.smin⟩ := by
  unfold Scratch.shift
  simp only [adjusted_eq hs, getD_map_adjusted, ge_iff_le, adjustedDigit_carry]
  by_cases hlead : 5 ≤ s.digits.getD s.smin 0
  · rw [if_pos hlead, if_pos hlead]
    by_cases hroom : 1 < s.smin
    · rw [if_pos hroom, validate_of_true hroom]
      have hdoubled := doubled_eq hs hshiftedIn (Nat.sub_le s.smin 1) (by omega)
      simp only [getD_map_adjusted, ge_iff_le, adjustedDigit_carry] at hdoubled
      exact congrArg (fun digits => Except.ok (Scratch.mk digits (s.smin - 1))) hdoubled
    · rw [if_neg hroom, validate, require, if_neg hroom]
      rfl
  · rw [if_neg hlead, if_neg hlead]
    have hdoubled := doubled_eq hs hshiftedIn (Nat.le_refl s.smin) fun _ => Nat.lt_of_not_le hlead
    simp only [getD_map_adjusted, ge_iff_le, adjustedDigit_carry] at hdoubled
    exact congrArg (fun digits => Except.ok (Scratch.mk digits s.smin)) hdoubled

/-- What the loop cannot hold. -/
def BeyondScratch (number : Nat) : Prop := 10 ^ 36 ≤ number

/-- One shift either doubles the number or throws, and it throws only when the
doubled number is beyond. -/
theorem shift_tracks (hs : Scratch.Holds s number) (hshiftedIn : shiftedIn ≤ 1) :
    Tracks Scratch.Holds (.thrown .invalidData) BeyondScratch (s.shift shiftedIn)
      (2 * number + shiftedIn) := by
  have hdouble := @Decimal.value_double shiftedIn s.digits hs.digits
  rw [hs.value, hs.length] at hdouble
  -- the first digit is in front of `smin` and carries nothing out
  have hout : Decimal.carryOut shiftedIn s.digits = 0 := by
    have hdrop := carryOut_drop shiftedIn s.digits 0
    rw [List.drop_zero, hs.length, hs.ahead 0 hs.smin_pos] at hdrop
    exact hdrop
  rw [hout, Nat.zero_mul, Nat.zero_add] at hdouble
  have hholds : ∀ smin, 0 < smin → smin ≤ s.smin →
      (smin = s.smin → s.digits.getD s.smin 0 < 5) →
      Scratch.Holds ⟨Decimal.double shiftedIn s.digits, smin⟩ (2 * number + shiftedIn) := by
    intro smin hpos hle hcarry
    refine ⟨?_, Decimal.double_digits hshiftedIn _, ?_, hpos, Nat.lt_of_le_of_lt hle hs.smin_lt,
      hdouble⟩
    · rw [Decimal.length_double, hs.length]
    · intro k (hk : k < smin)
      have hlt := hs.smin_lt
      have hlength : k < s.digits.length := by
        rw [hs.length]
        omega
      have hzero := hs.ahead k (by omega)
      rw [List.getD_eq_getElem s.digits 0 hlength] at hzero
      rw [List.getD_eq_getElem _ 0 (by rwa [Decimal.length_double]),
        Decimal.getElem_double _ _ _ hlength, carry_ahead hs hle hcarry hk, hzero]
  rw [shift_eq hs hshiftedIn]
  split
  next hlead =>
    split
    next hroom => exact hholds (s.smin - 1) (by omega) (Nat.sub_le _ _) (by omega)
    next hroom =>
      -- the second digit is at least five, and 36 digits follow the first
      refine ⟨rfl, ?_⟩
      have hsmin : s.smin = 1 := by
        have hpos := hs.smin_pos
        omega
      rw [hsmin] at hlead
      have hvalue := hs.value
      match hdigits : s.digits, hs.length with
      | first :: second :: rest, hlength =>
        rw [hdigits, Decimal.value_cons, Decimal.value_cons] at hvalue
        have hrest : rest.length = 35 := by
          simpa [scratchSize] using hlength
        rw [hdigits] at hlead
        have hsecond : 5 ≤ second := hlead
        unfold BeyondScratch
        rw [hrest] at hvalue
        have hle : 5 * 10 ^ 35 ≤ second * 10 ^ 35 := Nat.mul_le_mul_right _ hsecond
        omega
  next hlead =>
    exact hholds s.smin hs.smin_pos (Nat.le_refl _) fun _ => Nat.lt_of_not_le hlead

/-- The bits of a byte, most significant first, in the loop's own words. -/
def shiftedBit (byte : UInt8) (j : Nat) : Nat :=
  if byte.toNat &&& (1 <<< (7 - j)) ≠ 0 then 1 else 0

theorem shiftedBit_le (byte : UInt8) (j : Nat) : shiftedBit byte j ≤ 1 := by
  unfold shiftedBit
  split <;> decide

theorem shiftedBit_eq (byte : UInt8) (j : Nat) :
    shiftedBit byte j = (byte.toNat.testBit (7 - j)).toNat := by
  unfold shiftedBit
  rw [Nat.one_shiftLeft, Nat.and_two_pow]
  cases byte.toNat.testBit (7 - j) <;> simp

theorem foldl_shiftedBit (byte : UInt8) (number : Nat) :
    (List.range 8).foldl (fun n j => 2 * n + shiftedBit byte j) number =
      number * 256 + byte.toNat := by
  have hbits : (List.range 8).foldl (fun n j => 2 * n + shiftedBit byte j) number =
      (Bits.ofByte byte).foldl (fun value bit => 2 * value + bit.toNat) number := by
    rw [Bits.ofByte, Bits.ofNat, List.foldl_map]
    simp only [shiftedBit_eq]
  rw [hbits, Bits.foldl_number, Bits.length_ofByte, Bits.number_ofByte]
  rfl

theorem beyond_step {n : Nat} (byte : UInt8) (h : BeyondScratch n) :
    BeyondScratch (n * 256 + byte.toNat) := by
  unfold BeyondScratch at *
  omega

theorem shiftByte_tracks (hs : Scratch.Holds s number) (byte : UInt8) :
    Tracks Scratch.Holds (.thrown .invalidData) BeyondScratch (s.shiftByte byte)
      (number * 256 + byte.toNat) := by
  rw [← foldl_shiftedBit]
  refine foldlM_tracks ?_ ?_ _ s number hs
  · exact fun state n j hstate => shift_tracks hstate (shiftedBit_le byte j)
  · intro n j hbeyond
    unfold BeyondScratch at *
    omega

/-- The scratch that the loop starts from. -/
theorem holds_zero : Scratch.Holds ⟨List.replicate scratchSize 0, scratchSize - 2⟩ 0 where
  length := List.length_replicate
  digits := by
    intro digit hdigit
    rw [List.eq_of_mem_replicate hdigit]
    decide
  ahead := by decide
  smin_pos := by decide
  smin_lt := by decide
  value := rfl

theorem shiftBytes_tracks (bytes : List UInt8) :
    Tracks Scratch.Holds (.thrown .invalidData) BeyondScratch
      (bytes.foldlM Scratch.shiftByte ⟨List.replicate scratchSize 0, scratchSize - 2⟩)
      (readUintBE bytes) :=
  foldlM_tracks (fun _ _ byte hstate => shiftByte_tracks hstate byte)
    (fun _ byte hbeyond => beyond_step byte hbeyond) bytes _ 0 holds_zero

end

/-! The digit loops. -/

/-- Digits as characters. -/
def digitChars (digits : List Nat) : List UInt8 :=
  digits.map fun digit => UInt8.ofNat (digit + '0'.toNat)

@[simp] theorem length_digitChars (digits : List Nat) :
    (digitChars digits).length = digits.length := List.length_map _

/-- `whole.fraction`, without a point when there is no fraction. -/
def amountText (whole fraction : List Nat) : List UInt8 :=
  digitChars whole ++
    if fraction = [] then [] else UInt8.ofNat '.'.toNat :: digitChars fraction

theorem putChar_of_room {outSize : Nat} {out : List UInt8} (h : out.length < outSize) (c : Nat) :
    putChar outSize out c = .ok (out ++ [UInt8.ofNat c]) := if_pos h

theorem digit_of_lt {s : Scratch} {index : Nat} (h : index < s.digits.length) :
    s.digit index = .ok s.digits[index] := by
  unfold Scratch.digit
  rw [readAt_eq_ok, List.getElem?_eq_getElem h]

/-- A window of the digits, and its first digit. -/
theorem window_cons {digits : List Nat} {offset count : Nat} (h : offset < digits.length) :
    (digits.drop offset).take (count + 1) =
      digits[offset] :: (digits.drop (offset + 1)).take count := by
  rw [List.drop_eq_getElem_cons h, List.take_succ_cons]

section

variable {s : Scratch} {outSize count offset : Nat} {out : List UInt8}

theorem integerDigits_eq {nonZero : Bool} (hdigits : offset + count ≤ s.digits.length)
    (hroom : out.length + count ≤ outSize) :
    integerDigits s outSize count offset nonZero out =
      .ok (offset + count, out ++ digitChars (if nonZero then (s.digits.drop offset).take count
        else ((s.digits.drop offset).take count).dropWhile (· = 0))) := by
  induction count generalizing offset nonZero out with
  | zero => simp [integerDigits, digitChars, pure, Except.pure]
  | succ count ih =>
    have hoffset : offset < s.digits.length := by omega
    rw [integerDigits, digit_of_lt hoffset, ok_bind, window_cons hoffset]
    split
    next hskip =>
      obtain ⟨hnonZero, hzero⟩ := hskip
      rw [ih (by omega) (by omega), Nat.add_assoc, Nat.add_comm 1 count]
      simp [hnonZero, hzero]
    next hprint =>
      rw [putChar_of_room (by omega), ok_bind, ih (by omega) (by simp; omega), Nat.add_assoc,
        Nat.add_comm 1 count]
      have hkeep : nonZero = true ∨ s.digits[offset] ≠ 0 := by
        by_cases hzero : s.digits[offset] = 0
        · exact Or.inl (by simpa [hzero] using hprint)
        · exact Or.inr hzero
      cases nonZero with
      | true => simp [digitChars]
      | false =>
        have hdigit : s.digits[offset] ≠ 0 := hkeep.resolve_left Bool.false_ne_true
        rw [if_neg Bool.false_ne_true, List.dropWhile_cons_of_neg (by simpa using hdigit)]
        simp [digitChars]

theorem allZero_eq (hdigits : offset + count ≤ s.digits.length) :
    allZero s count offset =
      .ok (decide (∀ digit ∈ (s.digits.drop offset).take count, digit = 0)) := by
  induction count generalizing offset with
  | zero => simp [allZero, pure, Except.pure]
  | succ count ih =>
    have hoffset : offset < s.digits.length := by omega
    rw [allZero, digit_of_lt hoffset, ok_bind, window_cons hoffset]
    split
    next hdigit => simp [hdigit, pure, Except.pure]
    next hdigit =>
      rw [ih (by omega)]
      simp [not_not.mp hdigit]

theorem fractionDigits_eq {comma : Bool} (hdigits : offset + count ≤ s.digits.length)
    (hroom : out.length + count + (if comma then 0 else 1) ≤ outSize) :
    fractionDigits s outSize count offset comma out =
      .ok (out ++ if Decimal.fractionDigits ((s.digits.drop offset).take count) = [] then []
        else (if comma then [] else [UInt8.ofNat '.'.toNat]) ++
          digitChars (Decimal.fractionDigits ((s.digits.drop offset).take count))) := by
  induction count generalizing offset comma out with
  | zero => simp [fractionDigits, Decimal.fractionDigits, pure, Except.pure]
  | succ count ih =>
    have hoffset : offset < s.digits.length := by omega
    rw [fractionDigits, allZero_eq hdigits, ok_bind, window_cons hoffset, Decimal.fractionDigits]
    simp only [decide_eq_true_eq]
    split
    next => simp [pure, Except.pure]
    next hsome =>
      -- the point is written in front of the first digit only
      have hpoint : (if comma then pure out else putChar outSize out '.'.toNat) =
          (.ok (out ++ if comma then [] else [UInt8.ofNat '.'.toNat]) : Outcome (List UInt8)) := by
        cases comma with
        | true => simp [pure, Except.pure]
        | false =>
          rw [if_neg Bool.false_ne_true, if_neg Bool.false_ne_true]
          rw [if_neg Bool.false_ne_true] at hroom
          exact putChar_of_room (by omega) _
      have hlength : (out ++ if comma then [] else [UInt8.ofNat '.'.toNat]).length + count + 1 ≤
          outSize := by
        cases comma <;> simp at hroom ⊢ <;> omega
      rw [hpoint, ok_bind, digit_of_lt hoffset, ok_bind, putChar_of_room (by omega), ok_bind,
        ih (by omega) (by simp at hlength ⊢; omega)]
      by_cases hrest :
          Decimal.fractionDigits ((s.digits.drop (offset + 1)).take count) = []
      · simp [hrest, digitChars]
      · simp [hrest, digitChars]

end

/-- The text is that of the digits in scratch. -/
theorem printed {s : Scratch} {number decimals outSize : Nat} (hs : Scratch.Holds s number)
    (hdecimals : decimals ≤ scratchSize) (hroom : scratchSize + 2 ≤ outSize) :
    (do
      let (offset, out) ← integerDigits s outSize (scratchSize - decimals) 0 false []
      let out ← (if out.length = 0 then putChar outSize out '0'.toNat else pure out)
      fractionDigits s outSize decimals offset false out) =
      .ok (amountText (Decimal.wholeDigits (s.digits.take (scratchSize - decimals)))
        (Decimal.fractionDigits (s.digits.drop (scratchSize - decimals)))) := by
  have hlength := hs.length
  rw [integerDigits_eq (by omega) (by simp; omega), ok_bind]
  simp only [List.drop_zero, List.nil_append, Nat.zero_add, Bool.false_eq_true, if_false,
    length_digitChars]
  have hwhole : (if ((s.digits.take (scratchSize - decimals)).dropWhile (· = 0)).length = 0 then
        putChar outSize (digitChars ((s.digits.take (scratchSize - decimals)).dropWhile (· = 0)))
          '0'.toNat
      else pure (digitChars ((s.digits.take (scratchSize - decimals)).dropWhile (· = 0)))) =
      .ok (digitChars (Decimal.wholeDigits (s.digits.take (scratchSize - decimals)))) := by
    unfold Decimal.wholeDigits
    simp only [List.length_eq_zero_iff]
    split
    next hzeros =>
      rw [hzeros, putChar_of_room (by simp [digitChars]; omega)]
      rfl
    next => rfl
  have hwholeLength := Decimal.length_wholeDigits_le (s.digits.take (scratchSize - decimals))
  rw [List.length_take] at hwholeLength
  rw [hwhole, ok_bind, fractionDigits_eq (by omega) (by
    rw [length_digitChars, if_neg Bool.false_ne_true]
    unfold scratchSize at *
    omega)]
  have hwindow : (s.digits.drop (scratchSize - decimals)).take decimals =
      s.digits.drop (scratchSize - decimals) := by
    apply List.take_of_length_le
    rw [List.length_drop]
    omega
  rw [hwindow]
  rfl

theorem Scratch.Holds.lt {s : Scratch} {number : Nat} (hs : Scratch.Holds s number) :
    number < 10 ^ 36 := by
  have hvalue := hs.value
  match hdigits : s.digits, hs.length with
  | first :: rest, hlength =>
    have hzero := hs.ahead 0 hs.smin_pos
    rw [hdigits, List.getD_cons_zero] at hzero
    have hrest : rest.length = 36 := by
      simpa [scratchSize] using hlength
    have hlt := Decimal.value_lt (hdigits ▸ hs.digits).tail
    rwa [← hvalue, hdigits, Decimal.value_cons, hzero, Nat.zero_mul, Nat.zero_add, ← hrest]

theorem length_amountText_le {s : Scratch} {number decimals : Nat} (hs : Scratch.Holds s number)
    (hdecimals : decimals ≤ scratchSize) :
    (amountText (Decimal.wholeDigits (s.digits.take (scratchSize - decimals)))
      (Decimal.fractionDigits (s.digits.drop (scratchSize - decimals)))).length ≤
        scratchSize + 2 := by
  have hwhole := Decimal.length_wholeDigits_le (s.digits.take (scratchSize - decimals))
  have hfraction :=
    (Decimal.fractionDigits_sublist (s.digits.drop (scratchSize - decimals))).length_le
  rw [List.length_take, hs.length] at hwhole
  rw [List.length_drop, hs.length] at hfraction
  unfold amountText
  rw [List.length_append, length_digitChars]
  unfold scratchSize at *
  split
  · rw [List.length_nil]
    omega
  · rw [List.length_cons, length_digitChars]
    omega

/-- The text is the canonical notation of a number that scratch can hold. -/
def CanonicalText (decimals : Nat) (text : List UInt8) (number : Nat) : Prop :=
  number < 10 ^ 36 ∧ text.length ≤ scratchSize + 2 ∧ ∃ whole fraction,
    Decimal.Canonical number decimals whole fraction ∧ text = amountText whole fraction

theorem convert_tracks {amount : List UInt8} {decimals amountLength outSize : Nat}
    (hlength : amountLength ≤ amount.length) (hdecimals : decimals ≤ scratchSize)
    (hroom : scratchSize + 2 ≤ outSize) :
    Tracks (CanonicalText decimals) (.thrown .invalidData) BeyondScratch
      (convertHexAmountToDisplayable amount decimals amountLength outSize)
      (readUintBE (amount.take amountLength)) := by
  unfold convertHexAmountToDisplayable
  have hloop : (scratchSize + 256 - decimals) % 256 = scratchSize - decimals := by
    unfold scratchSize at *
    omega
  rw [hloop, loadMany_eq_ok.mpr ⟨hlength, rfl⟩, ok_bind]
  have htracks := shiftBytes_tracks (amount.take amountLength)
  cases hscratch : (amount.take amountLength).foldlM Scratch.shiftByte
      ⟨List.replicate scratchSize 0, scratchSize - 2⟩ with
  | error e =>
    rw [hscratch] at htracks
    exact htracks
  | ok s =>
    rw [hscratch] at htracks
    have hs : Scratch.Holds s (readUintBE (amount.take amountLength)) := htracks
    rw [ok_bind, printed hs hdecimals hroom]
    refine ⟨hs.lt, length_amountText_le hs hdecimals, _, _, ?_, rfl⟩
    have hcanonical := Decimal.canonical_of_digits hs.digits (hs.length ▸ hdecimals)
    rwa [hs.value, hs.length] at hcanonical

/-! Reading a text back. -/

/-- Characters as digits. -/
def charDigits (chars : List UInt8) : List Nat := chars.map fun c => c.toNat - '0'.toNat

/-- The number that a text with an optional point denotes. -/
def reading (text : List UInt8) : ℚ :=
  let point := UInt8.ofNat '.'.toNat
  let whole := charDigits (text.takeWhile (· ≠ point))
  let fraction := charDigits ((text.dropWhile (· ≠ point)).drop 1)
  Decimal.value whole + Decimal.value fraction / 10 ^ fraction.length

theorem digitChar_toNat {digit : Nat} (h : digit < 10) :
    (UInt8.ofNat (digit + '0'.toNat)).toNat = digit + '0'.toNat := by
  rw [UInt8.toNat_ofNat']
  apply Nat.mod_eq_of_lt
  change digit + 48 < 256
  omega

theorem charDigits_digitChars {digits : List Nat} (h : Decimal.Digits digits) :
    charDigits (digitChars digits) = digits := by
  unfold charDigits digitChars
  rw [List.map_map]
  conv_rhs => rw [← List.map_id digits]
  apply List.map_congr_left
  intro digit hdigit
  rw [Function.comp_apply, digitChar_toNat (h digit hdigit), Nat.add_sub_cancel, id]

theorem digitChars_ne_point {digits : List Nat} (h : Decimal.Digits digits) :
    ∀ c ∈ digitChars digits, decide (c ≠ UInt8.ofNat '.'.toNat) = true := by
  intro c hc
  obtain ⟨digit, hdigit, rfl⟩ := List.mem_map.mp hc
  rw [decide_eq_true_eq]
  intro heq
  have hvalue := congrArg UInt8.toNat heq
  rw [digitChar_toNat (h digit hdigit)] at hvalue
  change digit + 48 = 46 at hvalue
  omega

theorem reading_amountText {number decimals : Nat} {whole fraction : List Nat}
    (h : Decimal.Canonical number decimals whole fraction) :
    reading (amountText whole fraction) * 10 ^ decimals = number := by
  have hparts : reading (amountText whole fraction) =
      Decimal.value whole + Decimal.value fraction / 10 ^ fraction.length := by
    unfold reading amountText
    simp only [List.takeWhile_append_of_pos (digitChars_ne_point h.whole_digits),
      List.dropWhile_append_of_pos (digitChars_ne_point h.whole_digits)]
    split
    next hempty =>
      have hwhole := charDigits_digitChars h.whole_digits
      rw [hempty]
      simp only [List.takeWhile_nil, List.append_nil, hwhole]
      rfl
    next =>
      simp [charDigits_digitChars h.whole_digits, charDigits_digitChars h.fraction_digits]
  have hreads := congrArg (Nat.cast (R := ℚ)) h.reads
  push_cast at hreads
  rw [hparts, ← hreads]
  have hpow : (10 : ℚ) ^ decimals =
      10 ^ fraction.length * 10 ^ (decimals - fraction.length) := by
    rw [← pow_add, Nat.add_sub_cancel' h.fraction_length]
  rw [hpow]
  field_simp

/-- An amount is thrown out exactly when it has more than 36 digits, and otherwise
printed in canonical notation, from which it can be read back. -/
theorem amount_printed_exactly {amount : List UInt8} {decimals amountLength outSize : Nat}
    (hlength : amountLength ≤ amount.length) (hdecimals : decimals ≤ 37) (hroom : 39 ≤ outSize) :
    let number := readUintBE (amount.take amountLength)
    let result := convertHexAmountToDisplayable amount decimals amountLength outSize
    (result = .error (.thrown .invalidData) ↔ 10 ^ 36 ≤ number) ∧
      (number < 10 ^ 36 → ∃ whole fraction,
        Decimal.Canonical number decimals whole fraction ∧
          result = .ok (amountText whole fraction) ∧ (amountText whole fraction).length ≤ 39 ∧
          reading (amountText whole fraction) * 10 ^ decimals = number) := by
  intro number result
  have htracks := convert_tracks hlength hdecimals hroom
  change Tracks _ _ _ result number at htracks
  cases hresult : result with
  | error e =>
    rw [hresult] at htracks
    obtain ⟨rfl, hbeyond⟩ := htracks
    have hbeyond : 10 ^ 36 ≤ number := hbeyond
    exact ⟨iff_of_true rfl hbeyond, fun hlt => absurd hlt (Nat.not_lt_of_le hbeyond)⟩
  | ok text =>
    rw [hresult] at htracks
    obtain ⟨hlt, htext, whole, fraction, hcanonical, rfl⟩ := htracks
    refine ⟨iff_of_false (fun heq => by cases heq) (Nat.not_le_of_lt hlt), fun _ => ?_⟩
    exact ⟨whole, fraction, hcanonical, rfl, htext, reading_amountText hcanonical⟩

/-- 1234500 units with six decimals. -/
theorem amount_printed_exactly_six : ∃ whole fraction,
    Decimal.Canonical 1234500 6 whole fraction ∧
      convertHexAmountToDisplayable [0x12, 0xd6, 0x44] 6 3 40 =
        .ok (amountText whole fraction) ∧ (amountText whole fraction).length ≤ 39 ∧
      reading (amountText whole fraction) * 10 ^ 6 = (1234500 : Nat) :=
  (@amount_printed_exactly [0x12, 0xd6, 0x44] 6 3 40 (by decide) (by decide) (by decide)).2
    (by decide)

example : convertHexAmountToDisplayable [0x7b] 2 1 40 = .ok (ascii ['1', '.', '2', '3']) := by
  decide +kernel

end EverscaleLedger.Properties
