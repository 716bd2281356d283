import Mathlib

/-! Bit strings, the first bit being the most significant one, and their packing
into bytes. -/
namespace EverscaleLedger.Library.Bits

/-- The last `width` binary digits of a number. -/
def ofNat (width value : Nat) : List Bool :=
  (List.range width).map fun i => value.testBit (width - 1 - i)

/-- The number that a bit string denotes. -/
def number (bits : List Bool) : Nat := bits.foldl (fun value bit => 2 * value + bit.toNat) 0

def ofByte (byte : UInt8) : List Bool := ofNat 8 byte.toNat

def ofBytes (bytes : List UInt8) : List Bool := bytes.flatMap ofByte

def toByte (bits : List Bool) : UInt8 := UInt8.ofNat (number bits)

/-- Eight bits a byte; a shorter rest is left out. -/
def pack (bits : List Bool) : List UInt8 :=
  (List.range (bits.length / 8)).map fun i => toByte ((bits.drop (8 * i)).take 8)

@[simp] theorem length_ofNat (width value : Nat) : (ofNat width value).length = width := by
  simp [ofNat]

theorem getElem_ofNat {width value i : Nat} (h : i < (ofNat width value).length) :
    (ofNat width value)[i] = value.testBit (width - 1 - i) := by
  simp [ofNat]

@[simp] theorem length_ofByte (byte : UInt8) : (ofByte byte).length = 8 := length_ofNat 8 _

@[simp] theorem length_ofBytes (bytes : List UInt8) : (ofBytes bytes).length = 8 * bytes.length := by
  induction bytes with
  | nil => rfl
  | cons byte rest ih =>
    rw [ofBytes, List.flatMap_cons, List.length_append, length_ofByte, ← ofBytes, ih,
      List.length_cons]
    omega

@[simp] theorem ofBytes_nil : ofBytes [] = [] := rfl

theorem ofBytes_cons (byte : UInt8) (rest : List UInt8) :
    ofBytes (byte :: rest) = ofByte byte ++ ofBytes rest := List.flatMap_cons

theorem ofBytes_append (first second : List UInt8) :
    ofBytes (first ++ second) = ofBytes first ++ ofBytes second := List.flatMap_append

theorem ofBytes_take (bytes : List UInt8) (count : Nat) :
    ofBytes (bytes.take count) = (ofBytes bytes).take (8 * count) := by
  induction bytes generalizing count with
  | nil => simp
  | cons byte rest ih =>
    cases count with
    | zero => rfl
    | succ count =>
      have hbyte := length_ofByte byte
      rw [List.take_succ_cons, ofBytes_cons, ofBytes_cons, ih, Nat.mul_succ, Nat.add_comm,
        ← hbyte, List.take_length_add_append]

theorem ofBytes_drop (bytes : List UInt8) (count : Nat) :
    ofBytes (bytes.drop count) = (ofBytes bytes).drop (8 * count) := by
  induction bytes generalizing count with
  | nil => simp
  | cons byte rest ih =>
    cases count with
    | zero => rfl
    | succ count =>
      have hbyte := length_ofByte byte
      rw [List.drop_succ_cons, ofBytes_cons, ih, Nat.mul_succ, Nat.add_comm, ← hbyte,
        List.drop_length_add_append]

/-! Numbers. -/

theorem foldl_number (bits : List Bool) (start : Nat) :
    bits.foldl (fun value bit => 2 * value + bit.toNat) start =
      start * 2 ^ bits.length + number bits := by
  induction bits generalizing start with
  | nil => simp [number]
  | cons bit rest ih =>
    rw [number, List.foldl_cons, List.foldl_cons, ih, ih (2 * 0 + bit.toNat), List.length_cons,
      pow_succ]
    ring

theorem number_append (first second : List Bool) :
    number (first ++ second) = number first * 2 ^ second.length + number second := by
  rw [number, List.foldl_append, foldl_number]
  rfl

theorem number_cons (bit : Bool) (rest : List Bool) :
    number (bit :: rest) = bit.toNat * 2 ^ rest.length + number rest := by
  have happend := number_append [bit] rest
  rwa [show number [bit] = bit.toNat by simp [number]] at happend

theorem number_lt (bits : List Bool) : number bits < 2 ^ bits.length := by
  induction bits with
  | nil => decide
  | cons bit rest ih =>
    have hbit := bit.toNat_le
    rw [number_cons, List.length_cons, pow_succ]
    have hle : bit.toNat * 2 ^ rest.length ≤ 1 * 2 ^ rest.length := Nat.mul_le_mul_right _ hbit
    omega

@[simp] theorem number_replicate_false (count : Nat) : number (List.replicate count false) = 0 := by
  induction count with
  | zero => rfl
  | succ count ih =>
    rw [List.replicate_succ, number_cons, ih, Bool.toNat_false, Nat.zero_mul]

theorem ofNat_succ (width value : Nat) :
    ofNat (width + 1) value = value.testBit width :: ofNat width value := by
  unfold ofNat
  rw [List.range_succ_eq_map, List.map_cons, List.map_map]
  congr 1
  apply List.map_congr_left
  intro i _
  rw [Function.comp_apply, show width + 1 - 1 - i.succ = width - 1 - i by omega]

theorem number_ofNat (width value : Nat) : number (ofNat width value) = value % 2 ^ width := by
  induction width with
  | zero => simp [ofNat, number, Nat.mod_one]
  | succ width ih =>
    rw [ofNat_succ, number_cons, ih, length_ofNat, Nat.mod_pow_succ, Nat.toNat_testBit,
      Nat.mul_comm, Nat.add_comm]

/-- A bit string is determined by its length and its number. -/
theorem ofNat_number (bits : List Bool) : ofNat bits.length (number bits) = bits := by
  induction bits with
  | nil => rfl
  | cons bit rest ih =>
    have hlt := number_lt rest
    rw [List.length_cons, ofNat_succ, number_cons]
    congr 1
    · cases bit with
      | false =>
        rw [Bool.toNat_false, Nat.zero_mul, Nat.zero_add]
        exact Nat.testBit_lt_two_pow hlt
      | true =>
        rw [Bool.toNat_true, Nat.one_mul, Nat.testBit_two_pow_add_eq, Nat.testBit_lt_two_pow hlt]
        rfl
    · refine Eq.trans (List.map_congr_left fun i hi => ?_) ih
      have hi := List.mem_range.mp hi
      rw [Nat.mul_comm, Nat.testBit_two_pow_mul_add _ hlt, if_pos (by omega)]

theorem number_inj {first second : List Bool} (hlength : first.length = second.length)
    (h : number first = number second) : first = second := by
  rw [← ofNat_number first, ← ofNat_number second, hlength, h]

/-! Bytes. -/

theorem number_ofByte (byte : UInt8) : number (ofByte byte) = byte.toNat := by
  rw [ofByte, number_ofNat, Nat.mod_eq_of_lt byte.toNat_lt]

theorem ofByte_ofNat (value : Nat) : ofByte (UInt8.ofNat value) = ofNat 8 value := by
  apply number_inj (by simp)
  rw [number_ofByte, number_ofNat, UInt8.toNat_ofNat']

theorem ofByte_toByte {bits : List Bool} (h : bits.length = 8) : ofByte (toByte bits) = bits := by
  rw [toByte, ofByte_ofNat, ← h, ofNat_number]

theorem toByte_ofByte (byte : UInt8) : toByte (ofByte byte) = byte := by
  rw [toByte, number_ofByte, UInt8.ofNat_toNat]

theorem pack_of_le {bits : List Bool} (h : 8 ≤ bits.length) :
    pack bits = toByte (bits.take 8) :: pack (bits.drop 8) := by
  unfold pack
  rw [List.length_drop, show bits.length / 8 = (bits.length - 8) / 8 + 1 by omega,
    List.range_succ_eq_map, List.map_cons, List.map_map]
  congr 1
  apply List.map_congr_left
  intro i _
  rw [Function.comp_apply, List.drop_drop]
  congr 3
  omega

@[simp] theorem length_pack (bits : List Bool) : (pack bits).length = bits.length / 8 := by
  simp [pack]

theorem pack_ofBytes (bytes : List UInt8) : pack (ofBytes bytes) = bytes := by
  induction bytes with
  | nil => rfl
  | cons byte rest ih =>
    rw [pack_of_le (by rw [length_ofBytes, List.length_cons]; omega), ofBytes_cons,
      List.take_left' (length_ofByte byte), List.drop_left' (length_ofByte byte), toByte_ofByte, ih]

theorem ofBytes_pack {bits : List Bool} (h : bits.length % 8 = 0) : ofBytes (pack bits) = bits := by
  obtain ⟨count, hcount⟩ : ∃ count, bits.length = 8 * count := ⟨bits.length / 8, by omega⟩
  clear h
  induction count generalizing bits with
  | zero =>
    rw [List.eq_nil_of_length_eq_zero hcount]
    rfl
  | succ count ih =>
    rw [pack_of_le (by omega), ofBytes_cons, ofByte_toByte (by rw [List.length_take]; omega),
      ih (by rw [List.length_drop]; omega), List.take_append_drop]

theorem ofBytes_inj {first second : List UInt8} (h : ofBytes first = ofBytes second) :
    first = second := by
  rw [← pack_ofBytes first, h, pack_ofBytes]

/-- A statement about all bytes, in a form that can be decided. -/
theorem forall_byte {property : UInt8 → Prop} (h : ∀ n < 256, property (UInt8.ofNat n))
    (byte : UInt8) : property byte := by
  have hbyte := h byte.toNat byte.toNat_lt
  rwa [UInt8.ofNat_toNat] at hbyte

/-! Shifts. -/

theorem ofNat_shiftRight {width value : Nat} (hvalue : value < 2 ^ width) {shift : Nat}
    (hshift : shift ≤ width) :
    ofNat width (value >>> shift) =
      List.replicate shift false ++ (ofNat width value).take (width - shift) := by
  apply List.ext_getElem (by simp; omega)
  intro i hi _
  rw [length_ofNat] at hi
  rw [getElem_ofNat, Nat.testBit_shiftRight]
  by_cases hleft : i < shift
  · rw [List.getElem_append_left (by simpa using hleft), List.getElem_replicate]
    exact Nat.testBit_lt_two_pow (Nat.lt_of_lt_of_le hvalue (Nat.pow_le_pow_right (by decide) (by omega)))
  · rw [List.getElem_append_right (by simpa using hleft), List.getElem_take,
      getElem_ofNat]
    congr 1
    simp only [List.length_replicate]
    omega

theorem ofNat_shiftLeft {width shift : Nat} (value : Nat) (hshift : shift ≤ width) :
    ofNat width (value <<< shift) = (ofNat width value).drop shift ++ List.replicate shift false := by
  apply List.ext_getElem (by simp; omega)
  intro i hi _
  rw [length_ofNat] at hi
  rw [getElem_ofNat, Nat.testBit_shiftLeft]
  by_cases hleft : i < width - shift
  · rw [List.getElem_append_left (by simpa using hleft), List.getElem_drop,
      getElem_ofNat, decide_eq_true (by omega), Bool.true_and]
    congr 1
    omega
  · rw [List.getElem_append_right (by simpa using hleft), List.getElem_replicate,
      decide_eq_false (by omega), Bool.false_and]

/-- Two numbers whose digits do not overlap. -/
theorem ofNat_lor {width first second : Nat} {high low : List Bool}
    (hfirst : ofNat width first = high ++ List.replicate low.length false)
    (hsecond : ofNat width second = List.replicate high.length false ++ low) :
    ofNat width (first ||| second) = high ++ low := by
  have hlength := congrArg List.length hfirst
  rw [length_ofNat, List.length_append, List.length_replicate] at hlength
  apply List.ext_getElem (by simp; omega)
  intro i hi hi'
  have hi1 : i < (ofNat width first).length := by simpa using hi
  have hi2 : i < (ofNat width second).length := by simpa using hi
  have hbound1 : i < (high ++ List.replicate low.length false).length := hfirst ▸ hi1
  have hbound2 : i < (List.replicate high.length false ++ low).length := hsecond ▸ hi2
  have h1 : (ofNat width first)[i] = (high ++ List.replicate low.length false)[i] := by
    simp only [hfirst]
  have h2 : (ofNat width second)[i] = (List.replicate high.length false ++ low)[i] := by
    simp only [hsecond]
  rw [getElem_ofNat] at h1 h2
  rw [getElem_ofNat, Nat.testBit_lor, h1, h2]
  by_cases hleft : i < high.length
  · rw [List.getElem_append_left hleft, List.getElem_append_left (by simpa using hleft),
      List.getElem_append_left hleft, List.getElem_replicate, Bool.or_false]
  · rw [List.getElem_append_right (by omega), List.getElem_append_right (by simp; omega),
      List.getElem_append_right (by omega), List.getElem_replicate, Bool.false_or]
    simp

/-! Windows. -/

/-- `count` bits from a position on. -/
def window (bits : List Bool) (start count : Nat) : List Bool := (bits.drop start).take count

theorem length_window {bits : List Bool} {start count : Nat} (h : start + count ≤ bits.length) :
    (window bits start count).length = count := by
  unfold window
  rw [List.length_take, List.length_drop]
  omega

theorem window_add (bits : List Bool) (start first second : Nat) :
    window bits start (first + second) =
      window bits start first ++ window bits (start + first) second := by
  unfold window
  rw [List.take_add, List.drop_drop]

/-- The middle digits of a number. -/
theorem number_window {bits : List Bool} {start count : Nat} (h : start + count ≤ bits.length) :
    number (window bits start count) =
      number bits / 2 ^ (bits.length - start - count) % 2 ^ count := by
  have hsplit : bits = bits.take start ++ window bits start count ++ bits.drop (start + count) := by
    unfold window
    rw [List.append_assoc, ← List.drop_drop, List.take_append_drop, List.take_append_drop]
  have hrest : (bits.drop (start + count)).length = bits.length - start - count := by
    rw [List.length_drop]
    omega
  have hlt := number_lt (window bits start count)
  have hltRest := number_lt (bits.drop (start + count))
  rw [length_window h] at hlt
  conv_rhs => rw [hsplit, number_append, number_append]
  rw [length_window h]
  have hlength : (bits.take start ++ window bits start count ++
      bits.drop (start + count)).length = bits.length := by
    rw [← hsplit]
  rw [hlength, ← hrest, Nat.mul_comm _ (2 ^ (bits.drop (start + count)).length),
    Nat.mul_add_div (Nat.two_pow_pos _), Nat.div_eq_of_lt hltRest, Nat.add_zero,
    Nat.mul_add_mod_of_lt hlt]

/-- A window inside one byte. -/
theorem window_byte {bytes : List UInt8} {index offset count : Nat} (hindex : index < bytes.length)
    (h : offset + count ≤ 8) :
    window (ofBytes bytes) (8 * index + offset) count =
      window (ofByte bytes[index]) offset count := by
  unfold window
  rw [← List.drop_drop, ← ofBytes_drop, List.drop_eq_getElem_cons hindex, ofBytes_cons,
    List.drop_append_of_le_length (by rw [length_ofByte]; omega),
    List.take_append_of_le_length (by rw [List.length_drop, length_ofByte]; omega)]

/-- A window over two bytes. -/
theorem window_two_bytes {bytes : List UInt8} {index offset count : Nat}
    (hindex : index + 1 < bytes.length) (h : offset + count ≤ 16) :
    window (ofBytes bytes) (8 * index + offset) count =
      window (ofByte bytes[index] ++ ofByte bytes[index + 1]) offset count := by
  have hlength : (ofByte bytes[index] ++ ofByte bytes[index + 1]).length = 16 := by
    rw [List.length_append, length_ofByte, length_ofByte]
  unfold window
  rw [← List.drop_drop, ← ofBytes_drop,
    List.drop_eq_getElem_cons (show index < bytes.length by omega),
    List.drop_eq_getElem_cons hindex, ofBytes_cons, ofBytes_cons, ← List.append_assoc,
    List.drop_append_of_le_length (by omega),
    List.take_append_of_le_length (by rw [List.length_drop]; omega)]

/-! Completion. -/

/-- A bit string that does not fill its last byte is completed by a one and zeros. -/
def completed (bits : List Bool) : List Bool :=
  if bits.length % 8 = 0 then bits
  else bits ++ true :: List.replicate (7 - bits.length % 8) false

theorem length_completed (bits : List Bool) :
    (completed bits).length = 8 * ((bits.length + 7) / 8) := by
  unfold completed
  split
  · omega
  · simp
    omega

/-- What is put behind a bit string of some length. -/
def padding (length : Nat) : List Bool :=
  if length % 8 = 0 then [] else true :: List.replicate (7 - length % 8) false

theorem completed_eq (bits : List Bool) : completed bits = bits ++ padding bits.length := by
  unfold completed padding
  split
  · rw [List.append_nil]
  · rfl

theorem length_padding (length : Nat) : (padding length).length = (8 - length % 8) % 8 := by
  unfold padding
  split
  next haligned => rw [haligned, List.length_nil]
  next =>
    rw [List.length_cons, List.length_replicate]
    omega

end EverscaleLedger.Library.Bits
