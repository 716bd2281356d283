import EverscaleLedger.Library.Checked

/-! Decimal digits, most significant first: the number they denote, doubling with
a carry, and the canonical notation of a fixed-point number. -/
namespace EverscaleLedger.Library.Decimal

/-- Every entry is a decimal digit. -/
def Digits (digits : List Nat) : Prop := ∀ digit ∈ digits, digit < 10

/-- The number that the digits denote. -/
def value (digits : List Nat) : Nat := Nat.ofDigits 10 digits.reverse

@[simp] theorem value_nil : value [] = 0 := rfl

theorem value_append (first second : List Nat) :
    value (first ++ second) = value first * 10 ^ second.length + value second := by
  unfold value
  rw [List.reverse_append, Nat.ofDigits_append, List.length_reverse]
  ring

theorem value_cons (digit : Nat) (rest : List Nat) :
    value (digit :: rest) = digit * 10 ^ rest.length + value rest := by
  have happend := value_append [digit] rest
  rwa [show value [digit] = digit from Nat.ofDigits_singleton] at happend

theorem Digits.tail {digit : Nat} {rest : List Nat} (h : Digits (digit :: rest)) : Digits rest :=
  fun other hother => h other (List.mem_cons_of_mem _ hother)

theorem Digits.of_sublist {part digits : List Nat} (hpart : part.Sublist digits)
    (h : Digits digits) : Digits part := fun digit hdigit => h digit (hpart.subset hdigit)

theorem value_lt {digits : List Nat} (h : Digits digits) : value digits < 10 ^ digits.length := by
  have hbound := Nat.ofDigits_lt_base_pow_length (b := 10) (l := digits.reverse) (by decide)
    fun digit hdigit => h digit (List.mem_reverse.mp hdigit)
  rwa [List.length_reverse] at hbound

theorem value_inj {digits digits' : List Nat} (h : Digits digits) (h' : Digits digits')
    (hlength : digits.length = digits'.length) (hvalue : value digits = value digits') :
    digits = digits' := by
  apply List.reverse_injective
  apply Nat.ofDigits_inj_of_len_eq (by decide : 1 < 10) (by simpa using hlength)
  · intro digit hdigit
    exact h digit (List.mem_reverse.mp hdigit)
  · intro digit hdigit
    exact h' digit (List.mem_reverse.mp hdigit)
  · exact hvalue

theorem value_of_zeros {digits : List Nat} (h : ∀ digit ∈ digits, digit = 0) : value digits = 0 := by
  induction digits with
  | nil => rfl
  | cons digit rest ih =>
    rw [value_cons, h digit List.mem_cons_self,
      ih fun other hother => h other (List.mem_cons_of_mem _ hother)]
    simp

/-- Leading zeros do not count. -/
theorem value_dropWhile (digits : List Nat) : value (digits.dropWhile (· = 0)) = value digits := by
  induction digits with
  | nil => rfl
  | cons digit rest ih =>
    by_cases hzero : digit = 0
    · rw [List.dropWhile_cons_of_pos (by simpa using hzero), ih, value_cons, hzero]
      simp
    · rw [List.dropWhile_cons_of_neg (by simpa using hzero)]

/-! Doubling. -/

/-- What the digits carry out when they are doubled and `carryIn` is added. -/
def carryOut (carryIn : Nat) : List Nat → Nat
  | [] => carryIn
  | digit :: _ => if 5 ≤ digit then 1 else 0

/-- Twice the number, plus `carryIn`, in as many digits. -/
def double (carryIn : Nat) : List Nat → List Nat
  | [] => []
  | digit :: rest => (2 * digit % 10 + carryOut carryIn rest) :: double carryIn rest

@[simp] theorem length_double (carryIn : Nat) (digits : List Nat) :
    (double carryIn digits).length = digits.length := by
  induction digits with
  | nil => rfl
  | cons digit rest ih => rw [double, List.length_cons, ih, List.length_cons]

theorem carryOut_le {carryIn : Nat} (hcarry : carryIn ≤ 1) (digits : List Nat) :
    carryOut carryIn digits ≤ 1 := by
  cases digits with
  | nil => exact hcarry
  | cons digit rest =>
    rw [carryOut]
    split <;> omega

theorem double_digits {carryIn : Nat} (hcarry : carryIn ≤ 1) (digits : List Nat) :
    Digits (double carryIn digits) := by
  induction digits with
  | nil => exact fun digit hdigit => absurd hdigit List.not_mem_nil
  | cons digit rest ih =>
    intro other hother
    have hrest := carryOut_le hcarry rest
    obtain rfl | hother := List.mem_cons.mp hother
    · omega
    · exact ih other hother

theorem value_double {carryIn : Nat} {digits : List Nat} (h : Digits digits) :
    carryOut carryIn digits * 10 ^ digits.length + value (double carryIn digits) =
      2 * value digits + carryIn := by
  induction digits with
  | nil => simp [carryOut, double]
  | cons digit rest ih =>
    have hdigit : 2 * digit = 10 * carryOut carryIn (digit :: rest) + 2 * digit % 10 := by
      have hlt := h digit List.mem_cons_self
      rw [carryOut]
      split <;> omega
    rw [double, value_cons, value_cons, length_double, List.length_cons, pow_succ]
    calc _ = (10 * carryOut carryIn (digit :: rest) + 2 * digit % 10) * 10 ^ rest.length +
          (carryOut carryIn rest * 10 ^ rest.length + value (double carryIn rest)) := by ring
      _ = 2 * digit * 10 ^ rest.length + (2 * value rest + carryIn) := by rw [ih h.tail, ← hdigit]
      _ = _ := by ring

theorem getElem_double (carryIn : Nat) (digits : List Nat) (k : Nat) (hk : k < digits.length)
    (hk' : k < (double carryIn digits).length) :
    (double carryIn digits)[k] =
      2 * digits[k] % 10 + carryOut carryIn (digits.drop (k + 1)) := by
  induction digits generalizing k with
  | nil => exact absurd hk (Nat.not_lt_zero k)
  | cons digit rest ih =>
    cases k with
    | zero => rfl
    | succ k => exact ih k (Nat.lt_of_succ_lt_succ hk) (Nat.lt_of_succ_lt_succ hk')

/-! The canonical notation. -/

/-- The integer part without leading zeros, a single zero when it is zero. -/
def wholeDigits (digits : List Nat) : List Nat :=
  if digits.dropWhile (· = 0) = [] then [0] else digits.dropWhile (· = 0)

/-- The fraction without trailing zeros. -/
def fractionDigits : List Nat → List Nat
  | [] => []
  | digit :: rest =>
      if ∀ other ∈ digit :: rest, other = 0 then [] else digit :: fractionDigits rest

/-- `whole.fraction` is how `amount / 10 ^ decimals` is written. -/
structure Canonical (amount decimals : Nat) (whole fraction : List Nat) : Prop where
  whole_digits : Digits whole
  whole_lead : whole = [0] ∨ ∃ first rest, whole = first :: rest ∧ first ≠ 0
  fraction_digits : Digits fraction
  fraction_last : fraction.getLast? ≠ some 0
  fraction_length : fraction.length ≤ decimals
  reads : value whole * 10 ^ decimals + value fraction * 10 ^ (decimals - fraction.length) = amount

theorem value_wholeDigits (digits : List Nat) : value (wholeDigits digits) = value digits := by
  unfold wholeDigits
  split
  next hzeros =>
    rw [← value_dropWhile digits, hzeros]
    rfl
  next => exact value_dropWhile digits

theorem wholeDigits_lead (digits : List Nat) :
    wholeDigits digits = [0] ∨ ∃ first rest, wholeDigits digits = first :: rest ∧ first ≠ 0 := by
  unfold wholeDigits
  split
  next => exact Or.inl rfl
  next hsome =>
    refine Or.inr ⟨_, _, (List.cons_head_tail hsome).symm, ?_⟩
    have hhead := List.head_dropWhile_not (fun digit : Nat => decide (digit = 0)) hsome
    simpa using hhead

theorem wholeDigits_digits {digits : List Nat} (h : Digits digits) : Digits (wholeDigits digits) := by
  unfold wholeDigits
  split
  · intro digit hdigit
    rw [List.mem_singleton.mp hdigit]
    decide
  · exact h.of_sublist (List.dropWhile_sublist _)

theorem length_wholeDigits_le (digits : List Nat) :
    (wholeDigits digits).length ≤ max 1 digits.length := by
  unfold wholeDigits
  split
  · exact Nat.le_max_left _ _
  · exact Nat.le_trans (List.dropWhile_sublist _).length_le (Nat.le_max_right _ _)

theorem fractionDigits_sublist (digits : List Nat) : (fractionDigits digits).Sublist digits := by
  induction digits with
  | nil => exact List.Sublist.refl []
  | cons digit rest ih =>
    rw [fractionDigits]
    split
    · exact List.nil_sublist _
    · exact ih.cons_cons digit

theorem fractionDigits_last (digits : List Nat) : (fractionDigits digits).getLast? ≠ some 0 := by
  induction digits with
  | nil => simp [fractionDigits]
  | cons digit rest ih =>
    rw [fractionDigits]
    split
    · simp
    next hsome =>
      cases hrest : fractionDigits rest with
      | nil =>
        -- the digits behind this one are zero, hence it is not
        have hzeros : ∀ other ∈ rest, other = 0 := by
          cases rest with
          | nil => exact fun other hother => absurd hother List.not_mem_nil
          | cons next tail =>
            rw [fractionDigits] at hrest
            split at hrest
            · assumption
            · cases hrest
        rw [List.getLast?_singleton]
        intro hdigit
        apply hsome
        intro other hother
        obtain rfl | hother := List.mem_cons.mp hother
        · exact Option.some.inj hdigit
        · exact hzeros other hother
      | cons next tail => rwa [List.getLast?_cons_cons, ← hrest]

theorem value_fractionDigits (digits : List Nat) :
    value (fractionDigits digits) * 10 ^ (digits.length - (fractionDigits digits).length) =
      value digits := by
  induction digits with
  | nil => rfl
  | cons digit rest ih =>
    rw [fractionDigits]
    split
    next hzeros => rw [value_of_zeros hzeros, value_nil, Nat.zero_mul]
    next =>
      have hle := (fractionDigits_sublist rest).length_le
      rw [value_cons, value_cons, List.length_cons, List.length_cons, Nat.add_sub_add_right,
        Nat.add_mul, ih, Nat.mul_assoc, ← pow_add, Nat.add_sub_cancel' hle]

/-- The digits of a number, cut in front of the last `decimals` of them. -/
theorem canonical_of_digits {digits : List Nat} (h : Digits digits) {decimals : Nat}
    (hlength : decimals ≤ digits.length) :
    Canonical (value digits) decimals
      (wholeDigits (digits.take (digits.length - decimals)))
      (fractionDigits (digits.drop (digits.length - decimals))) where
  whole_digits := wholeDigits_digits (h.of_sublist (List.take_sublist _ _))
  whole_lead := wholeDigits_lead _
  fraction_digits := h.of_sublist ((fractionDigits_sublist _).trans (List.drop_sublist _ _))
  fraction_last := fractionDigits_last _
  fraction_length := by
    have hle := (fractionDigits_sublist (digits.drop (digits.length - decimals))).length_le
    rw [List.length_drop] at hle
    omega
  reads := by
    have hdrop : (digits.drop (digits.length - decimals)).length = decimals := by
      rw [List.length_drop]
      omega
    have hfraction := value_fractionDigits (digits.drop (digits.length - decimals))
    rw [hdrop] at hfraction
    rw [hfraction, value_wholeDigits]
    conv_rhs => rw [← List.take_append_drop (digits.length - decimals) digits, value_append, hdrop]

/-! How long the notation is. -/

/-- The digits of the integer part of `amount / 10 ^ decimals`. -/
def wholeLength (amount decimals : Nat) : Nat :=
  max 1 (Nat.digits 10 (amount / 10 ^ decimals)).length

/-- The digits of its fraction: those that are left when the number of decimals is
reduced as far as the amount can be divided. -/
def fractionLength (amount decimals : Nat) : Nat :=
  decimals - Nat.findGreatest (fun zeros => 10 ^ zeros ∣ amount) decimals

namespace Canonical

variable {amount decimals : Nat} {whole fraction : List Nat}

theorem value_whole (h : Canonical amount decimals whole fraction) :
    value whole = amount / 10 ^ decimals := by
  have hlt : value fraction * 10 ^ (decimals - fraction.length) < 10 ^ decimals := by
    have hfraction := Nat.mul_lt_mul_of_pos_right (value_lt h.fraction_digits)
      (Nat.pow_pos (n := decimals - fraction.length) (show 0 < 10 by decide))
    rwa [← pow_add, Nat.add_sub_cancel' h.fraction_length] at hfraction
  rw [← h.reads, Nat.mul_comm, Nat.mul_add_div (Nat.pow_pos (by decide)), Nat.div_eq_of_lt hlt,
    Nat.add_zero]

theorem length_whole (h : Canonical amount decimals whole fraction) :
    whole.length = wholeLength amount decimals := by
  unfold wholeLength
  rw [← h.value_whole]
  obtain rfl | ⟨first, rest, rfl, hfirst⟩ := h.whole_lead
  · simp [value]
  · unfold value
    rw [Nat.digits_ofDigits 10 (by decide)
      _ (fun digit hdigit => h.whole_digits digit (List.mem_reverse.mp hdigit)) (by simpa using hfirst)]
    simp

/-- The last digit of the fraction is not zero, so ten does not divide it. -/
theorem not_dvd_fraction (h : Canonical amount decimals whole fraction) (hne : fraction ≠ []) :
    ¬ 10 ∣ value fraction := by
  obtain ⟨front, last, rfl⟩ := List.eq_nil_or_concat' fraction |>.resolve_left hne
  have hlast : last ≠ 0 := by
    have hdigit := h.fraction_last
    rw [List.getLast?_concat] at hdigit
    exact fun hzero => hdigit (congrArg some hzero)
  have hlt := h.fraction_digits last (List.mem_append_right _ List.mem_cons_self)
  rw [value_append, value_cons, value_nil]
  simp only [List.length_singleton, List.length_nil, pow_one, pow_zero]
  omega

theorem length_fraction (h : Canonical amount decimals whole fraction) :
    fraction.length = fractionLength amount decimals := by
  have hle := h.fraction_length
  have hgreatest : Nat.findGreatest (fun zeros => 10 ^ zeros ∣ amount) decimals =
      decimals - fraction.length := by
    rw [Nat.findGreatest_eq_iff]
    refine ⟨Nat.sub_le _ _, fun _ => ?_, fun {zeros} hzeros hmax hdvd => ?_⟩
    · rw [← h.reads]
      exact Nat.dvd_add (Dvd.dvd.mul_left (pow_dvd_pow 10 (Nat.sub_le _ _)) _)
        (Nat.dvd_mul_left _ _)
    · -- one more factor of ten would have to come from the fraction
      have hne : fraction ≠ [] := by
        rintro rfl
        rw [List.length_nil, Nat.sub_zero] at hzeros
        omega
      apply h.not_dvd_fraction hne
      have hdvd' : 10 ^ (decimals - fraction.length + 1) ∣ amount :=
        Nat.dvd_trans (pow_dvd_pow 10 hzeros) hdvd
      have hpos : 0 < fraction.length := List.length_pos_iff.mpr hne
      rw [← h.reads, Nat.dvd_add_right
        (Dvd.dvd.mul_left (pow_dvd_pow 10 (by omega)) _), pow_succ', ] at hdvd'
      exact Nat.dvd_of_mul_dvd_mul_right (Nat.pow_pos (by decide)) hdvd'
  unfold fractionLength
  omega

/-- A number has one canonical notation. -/
theorem unique (h : Canonical amount decimals whole fraction) {whole' fraction' : List Nat}
    (h' : Canonical amount decimals whole' fraction') : whole = whole' ∧ fraction = fraction' := by
  have hwhole : whole = whole' := value_inj h.whole_digits h'.whole_digits
    (h.length_whole.trans h'.length_whole.symm) (h.value_whole.trans h'.value_whole.symm)
  have hlength : fraction.length = fraction'.length :=
    h.length_fraction.trans h'.length_fraction.symm
  refine ⟨hwhole, value_inj h.fraction_digits h'.fraction_digits hlength ?_⟩
  have hreads := h.reads.trans h'.reads.symm
  rw [hwhole, hlength] at hreads
  exact Nat.eq_of_mul_eq_mul_right (Nat.pow_pos (by decide)) (Nat.add_left_cancel hreads)

end Canonical

end EverscaleLedger.Library.Decimal
