import EverscaleLedger.Properties.BitReaders
import EverscaleLedger.Properties.KeyInsertion
import EverscaleLedger.Source.SliceInPlace

/-! `SliceData_append` as concatenation: when the slice ends up with the bits that were
there, those of the source and the tag, and when a call that does not fit has left
everything as it was. -/
namespace EverscaleLedger.Properties

open Library Library.InPlace Source Slice

/-! In place and as a function. -/

theorem storeInPlace_eq {s : SliceState} {index : Nat} {value : UInt8} :
    SliceData.storeInPlace index value s =
      match store s.slice.data index value with
      | .ok data => .ok () ⟨{ s.slice with data }, s.stores + 1⟩
      | .error e => .error e s := by
  unfold SliceData.storeInPlace
  rw [get_bind]
  cases store s.slice.data index value <;> rfl

section

variable {input : List UInt8} {appendTag : Bool} {shift firstDataByte bytes : Nat}

theorem storeInPlace_follows {related : β → α → SliceState → Prop} {s : SliceState} {index : Nat}
    {value : UInt8} {g : List UInt8 → Outcome β} {f : Unit → InPlace α}
    (hf : ∀ data, Follows related (g data) (f () ⟨{ s.slice with data }, s.stores + 1⟩)) :
    Follows related (store s.slice.data index value >>= g)
      ((SliceData.storeInPlace index value >>= f) s) := by
  rw [bind_apply, storeInPlace_eq]
  cases store s.slice.data index value with
  | ok data => exact hf data
  | error e => rfl

theorem appendBytesInPlace_follows {count j prev bits start : Nat} {s : SliceState}
    (hstart : s.slice.dataWindowStart = start) :
    Follows (fun expected total next => expected = (total, next.slice) ∧
        next.slice.dataWindowStart = start)
      (SliceData.appendBytes input appendTag shift firstDataByte bytes count j prev bits s.slice)
      (SliceData.appendBytesInPlace input appendTag shift firstDataByte bytes count j prev bits s) := by
  induction count generalizing j prev bits s with
  | zero => exact ⟨_, rfl, rfl, hstart⟩
  | succ count ih =>
    unfold SliceData.appendBytes SliceData.appendBytesInPlace
    simp only
    rw [get_bind]
    apply Follows.lift_bind
    intro _ _
    apply Follows.lift_bind
    intro byte _
    apply Follows.lift_bind
    intro first _
    apply storeInPlace_follows
    intro data
    split
    · exact @storeInPlace_follows _ _ _ ⟨{ s.slice with data }, s.stores + 1⟩ _ _ _ _
        fun last => @ih _ _ _ ⟨{ s.slice with data := last }, s.stores + 1 + 1⟩ hstart
    · exact @ih _ _ _ ⟨{ s.slice with data }, s.stores + 1⟩ hstart

theorem appendInPlace_follows {bits : Nat} {s : SliceState} :
    Follows (fun expected _ next => expected = next.slice) (s.slice.append input bits appendTag)
      (SliceData.appendInPlace input bits appendTag s) := by
  unfold SliceData.append SliceData.appendInPlace
  simp only
  rw [get_bind]
  apply Follows.lift_bind
  intro _ _
  split
  · apply Follows.lift_bind
    intro block _
    apply Follows.lift_bind
    intro data _
    exact ⟨_, rfl, rfl⟩
  · apply (appendBytesInPlace_follows rfl).bind
    intro expected total next hnext
    obtain ⟨rfl, hstart⟩ := hnext
    refine ⟨_, rfl, ?_⟩
    simp only [hstart]

/-! A call that has written something does not take it back. -/

theorem storeInPlace_raises (index : Nat) (value : UInt8) :
    Raises SliceState.stores (SliceData.storeInPlace index value) := by
  intro s
  rw [storeInPlace_eq]
  cases store s.slice.data index value with
  | ok data => exact Nat.le_succ _
  | error e => exact Nat.le_refl _

theorem appendBytesInPlace_raises (count j prev bits : Nat) :
    Raises SliceState.stores (SliceData.appendBytesInPlace input appendTag shift firstDataByte bytes
      count j prev bits) := by
  induction count generalizing j prev bits with
  | zero => exact Raises.pure _
  | succ count ih =>
    unfold SliceData.appendBytesInPlace
    apply Raises.get_bind
    intro s
    apply (Raises.lift _).bind
    intro _
    apply (Raises.lift _).bind
    intro byte
    apply (Raises.lift _).bind
    intro first
    apply (storeInPlace_raises _ _).bind
    intro _
    simp only
    split
    · exact (storeInPlace_raises _ _).bind fun _ => ih _ _ _
    · exact ih _ _ _

end

/-! The law. -/

/-- A slice as the code makes them: sizes of one byte, and a window of so many bytes.
Not all of the bytes that it was told about need to exist. -/
structure Slice.Told (slice : SliceData) : Prop where
  size : slice.dataSizeBytes < 256
  data : slice.data.length ≤ slice.dataSizeBytes
  window : slice.dataWindowEnd ≤ 8 * slice.dataSizeBytes

theorem told_init (data : List UInt8) {size : Nat} (h : size < 256) :
    Told (SliceData.init data size) where
  size := h
  data := List.length_take_le ..
  window := by
    rw [Nat.mul_comm]
    exact Nat.mod_le ..

theorem told_fromCell {cell : Cell} {slice : SliceData} (h : SliceData.fromCell cell = .ok slice) :
    Told slice := by
  simp only [SliceData.fromCell, Cell.getDataSize, bind_eq_ok, pure_eq_ok] at h
  obtain ⟨data, -, size, ⟨d2, -, rfl⟩, rfl⟩ := h
  apply told_init
  have hd2 := d2.toNat_lt
  rw [dataSizeOf, Nat.shiftRight_eq_div_pow]
  split <;> omega

/-- There is room in the window for the source, and for the tag where there is one. -/
def FitsIn (slice : SliceData) (input : List UInt8) (appendTag : Bool) : Prop :=
  8 * input.length + appendTag.toNat ≤ slice.remainingBits

/-- The bits before the cursor, those of the source and the tag. -/
structure Appended (slice : SliceData) (input : List UInt8) (appendTag : Bool)
    (after : SliceData) : Prop where
  kept : (Bits.ofBytes after.data).take slice.dataWindowStart =
    (Bits.ofBytes slice.data).take slice.dataWindowStart
  written : bitsAt after slice.dataWindowStart (8 * input.length) = Bits.ofBytes input
  tagged : appendTag = true →
    bitsAt after (slice.dataWindowStart + 8 * input.length) (8 - slice.dataWindowStart % 8) =
      true :: List.replicate (7 - slice.dataWindowStart % 8) false

/-- What fits is appended; what does not is refused before anything is written. -/
structure AppendLaw (slice : SliceData) (input : List UInt8) (appendTag : Bool) : Prop where
  fits : FitsIn slice input appendTag →
    ∃ after, SliceData.appendInPlace input (input.length * 8) appendTag ⟨slice, 0⟩ = .ok () after ∧
      Appended slice input appendTag after.slice
  refused : ¬ FitsIn slice input appendTag →
    ∃ error, SliceData.appendInPlace input (input.length * 8) appendTag ⟨slice, 0⟩ =
      .error (.thrown error) ⟨slice, 0⟩

/-- Where the code keeps to the law. -/
structure AppendsWhen (slice : SliceData) (input : List UInt8) (appendTag : Bool) : Prop where
  exists_data : FitsIn slice input appendTag →
    slice.dataWindowStart + 8 * input.length ≤ 8 * slice.data.length
  tag_there : FitsIn slice input appendTag → appendTag = true → slice.dataWindowStart % 8 = 0 →
    slice.data[slice.dataWindowStart / 8 + input.length]? = some 0x80
  far_too_long : ¬ FitsIn slice input appendTag →
    8 * slice.remainingBits < input.length % 256

section

variable {slice : SliceData} {input : List UInt8} {appendTag : Bool}

theorem Appended.of_bits {after : SliceData} {rest : List Bool}
    (hbits : Bits.ofBytes after.data = (Bits.ofBytes slice.data).take slice.dataWindowStart ++
      Bits.ofBytes input ++ rest)
    (hcursor : slice.dataWindowStart ≤ 8 * slice.data.length)
    (htag : appendTag = true → rest.take (8 - slice.dataWindowStart % 8) =
      true :: List.replicate (7 - slice.dataWindowStart % 8) false) :
    Appended slice input appendTag after := by
  have hfront : ((Bits.ofBytes slice.data).take slice.dataWindowStart).length =
      slice.dataWindowStart := by
    rw [List.length_take, Bits.length_ofBytes, Nat.min_eq_left hcursor]
  refine ⟨?_, ?_, fun h => ?_⟩
  · rw [hbits, List.append_assoc, List.take_left' hfront]
  · rw [bitsAt, Bits.window, hbits, List.append_assoc, List.drop_left' hfront,
      List.take_left' (Bits.length_ofBytes input)]
  · rw [bitsAt, Bits.window, hbits, List.drop_left' (by
      rw [List.length_append, hfront, Bits.length_ofBytes]), htag h]

/-- On a byte boundary the bytes are copied, with or without a tag. -/
theorem append_on_boundary (hne : input ≠ []) (haligned : slice.dataWindowStart % 8 = 0)
    (hlength : input.length < 256) (hremaining : input.length ≤ slice.remainingBits * 8) :
    slice.append input (input.length * 8) appendTag = (do
      let data ← storeMany slice.data (slice.dataWindowStart / 8) input
      pure { slice with
        data, dataWindowStart := (slice.dataWindowStart + input.length * 8) % 2 ^ 16 }) := by
  have hpos : 0 < input.length := List.length_pos_iff.mpr hne
  have hbytes : input.length * 8 / 8 % 256 = input.length := by omega
  unfold SliceData.append
  simp only [hbytes]
  rw [validate_of_true hremaining, ok_bind, if_pos (Or.inl haligned), if_pos (by omega),
    loadMany_eq_ok.mpr ⟨Nat.le_refl _, List.take_length⟩, ok_bind]

theorem FitsIn.length_lt (h : FitsIn slice input appendTag) (htold : Told slice) :
    input.length < 256 := by
  have hsize := htold.size
  have hwindow := htold.window
  unfold FitsIn SliceData.remainingBits at h
  omega

theorem FitsIn.length_le (h : FitsIn slice input appendTag) :
    input.length ≤ slice.remainingBits * 8 := by
  unfold FitsIn at h
  omega

/-- The bytes that are copied on a byte boundary, as bits. -/
theorem ofBytes_copied (haligned : slice.dataWindowStart % 8 = 0) :
    Bits.ofBytes (slice.data.take (slice.dataWindowStart / 8) ++ input ++
        slice.data.drop (slice.dataWindowStart / 8 + input.length)) =
      (Bits.ofBytes slice.data).take slice.dataWindowStart ++ Bits.ofBytes input ++
        Bits.ofBytes (slice.data.drop (slice.dataWindowStart / 8 + input.length)) := by
  rw [Bits.ofBytes_append, Bits.ofBytes_append, Bits.ofBytes_take,
    show 8 * (slice.dataWindowStart / 8) = slice.dataWindowStart by omega]

theorem append_fits (htold : Told slice) (hne : input ≠ []) (hfits : FitsIn slice input appendTag)
    (hdata : slice.dataWindowStart + 8 * input.length ≤ 8 * slice.data.length)
    (hthere : appendTag = true → slice.dataWindowStart % 8 = 0 →
      slice.data[slice.dataWindowStart / 8 + input.length]? = some 0x80) :
    ∃ next, slice.append input (input.length * 8) appendTag = .ok next ∧
      Appended slice input appendTag next := by
  have hlength := hfits.length_lt htold
  have hremaining := hfits.length_le
  have hsize := htold.size
  have hbytes := htold.data
  have hcursor : slice.dataWindowStart ≤ 8 * slice.data.length := by omega
  by_cases haligned : slice.dataWindowStart % 8 = 0
  · rw [append_on_boundary hne haligned hlength hremaining,
      storeMany_eq_ok.mpr ⟨by omega, rfl⟩, ok_bind]
    refine ⟨_, rfl, Appended.of_bits (ofBytes_copied haligned) hcursor fun htag => ?_⟩
    obtain ⟨hlt, hbyte⟩ := List.getElem?_eq_some_iff.mp (hthere htag haligned)
    rw [List.drop_eq_getElem_cons hlt, hbyte, Bits.ofBytes_cons, haligned,
      List.take_left' (Bits.length_ofByte _)]
    rfl
  · have hroom : slice.dataWindowStart / 8 + input.length < slice.data.length := by omega
    cases appendTag with
    | false =>
      obtain ⟨data, happend, -, hbits⟩ :=
        append_bits hne haligned hlength (by omega) hremaining hroom hbytes
      rw [List.append_assoc] at hbits
      exact ⟨_, happend, Appended.of_bits hbits hcursor nofun⟩
    | true =>
      obtain ⟨next, happend, -, hbits⟩ :=
        append_tag hne haligned hlength (by omega) hremaining hroom hbytes
      rw [List.append_assoc] at hbits
      refine ⟨_, happend, Appended.of_bits hbits hcursor fun _ => List.take_left' ?_⟩
      rw [List.length_cons, List.length_replicate]
      omega

/-- The source is where it was written, so those bytes exist. -/
theorem Appended.exists_data {after : SliceData} (h : Appended slice input appendTag after)
    (hne : input ≠ []) (hlength : after.data.length = slice.data.length) :
    slice.dataWindowStart + 8 * input.length ≤ 8 * slice.data.length := by
  have hpos : 0 < input.length := List.length_pos_iff.mpr hne
  have hwritten := congrArg List.length h.written
  rw [bitsAt, Bits.window, List.length_take, List.length_drop, Bits.length_ofBytes,
    Bits.length_ofBytes, hlength] at hwritten
  omega

/-- On a byte boundary nothing is written behind the source. -/
theorem Appended.tag_there {after : SliceData} (h : Appended slice input true after)
    (hne : input ≠ []) (haligned : slice.dataWindowStart % 8 = 0) (hlt : input.length < 256)
    (hremaining : input.length ≤ slice.remainingBits * 8)
    (happend : slice.append input (input.length * 8) true = .ok after) :
    slice.data[slice.dataWindowStart / 8 + input.length]? = some 0x80 := by
  rw [append_on_boundary hne haligned hlt hremaining] at happend
  obtain ⟨data, hstore, hafter⟩ := bind_eq_ok.mp happend
  obtain ⟨hroom, rfl⟩ := storeMany_eq_ok.mp hstore
  rw [pure_eq_ok] at hafter
  subst hafter
  have htag := h.tagged rfl
  have hfront : ((Bits.ofBytes slice.data).take slice.dataWindowStart ++
      Bits.ofBytes input).length = slice.dataWindowStart + 8 * input.length := by
    rw [List.length_append, List.length_take, Bits.length_ofBytes, Bits.length_ofBytes]
    omega
  simp only [bitsAt, Bits.window, ofBytes_copied haligned, haligned, Nat.sub_zero] at htag
  rw [List.drop_left' hfront] at htag
  cases hrest : slice.data.drop (slice.dataWindowStart / 8 + input.length) with
  | nil =>
    rw [hrest] at htag
    cases htag
  | cons byte rest =>
    rw [hrest, Bits.ofBytes_cons, List.take_left' (Bits.length_ofByte byte)] at htag
    have hbyte : byte = 0x80 := by
      rw [← Bits.toByte_ofByte byte, htag]
      rfl
    rw [← List.head?_drop, hrest, hbyte]
    rfl

/-! Refusals. -/

/-- A run that throws has written nothing. -/
def ThrowsUntouched (x : EStateM.Result Abort SliceState α) : Prop :=
  ∃ error next, x = .error (.thrown error) next ∧ next.stores = 0

theorem not_throwsUntouched_lift {y : Outcome β} {f : β → InPlace α} {s : SliceState}
    (hy : ∀ e, y = .error e → e = .fault)
    (hf : ∀ value, y = .ok value → ¬ ThrowsUntouched (f value s)) :
    ¬ ThrowsUntouched ((lift y >>= f) s) := by
  cases y with
  | ok value => exact hf value rfl
  | error e =>
    obtain rfl := hy e rfl
    rintro ⟨error, next, hrun, -⟩
    cases hrun

theorem not_throwsUntouched_of_stores {x : EStateM.Result Abort SliceState α}
    (h : 0 < (final x).stores) : ¬ ThrowsUntouched x := by
  rintro ⟨error, next, rfl, hzero⟩
  exact absurd hzero (Nat.ne_of_gt h)

theorem load_error {pointer : List UInt8} {index : Nat} {e : Abort}
    (h : load pointer index = .error e) : e = .fault := by
  unfold load readAt at h
  split at h
  · cases h
  · exact (Except.error.inj h).symm

theorem loadMany_error {pointer : List UInt8} {count : Nat} {e : Abort}
    (h : loadMany pointer count = .error e) : e = .fault :=
  error_of_ite h

theorem storeMany_error {object block : List UInt8} {start : Nat} {e : Abort}
    (h : storeMany object start block = .error e) : e = .fault :=
  error_of_ite h

theorem store_error {pointer : List UInt8} {index : Nat} {value : UInt8} {e : Abort}
    (h : store pointer index value = .error e) : e = .fault :=
  error_of_ite h

/-- A byte is written and then nothing is taken back. -/
theorem not_throwsUntouched_store {s : SliceState} {index : Nat} {value : UInt8}
    {f : Unit → InPlace α} (hf : Raises SliceState.stores (f ())) :
    ¬ ThrowsUntouched ((SliceData.storeInPlace index value >>= f) s) := by
  rw [bind_apply, storeInPlace_eq]
  cases hstore : store s.slice.data index value with
  | ok data =>
    apply not_throwsUntouched_of_stores
    exact Nat.lt_of_lt_of_le (Nat.succ_pos _) (hf ⟨{ s.slice with data }, s.stores + 1⟩)
  | error e =>
    obtain rfl := store_error hstore
    rintro ⟨error, next, hrun, -⟩
    cases hrun

/-- Off a byte boundary the first byte is written before the loop can throw. -/
theorem appendBytesInPlace_touched {bytes count bits shift firstDataByte : Nat}
    (hroom : firstDataByte < slice.dataSizeBytes) :
    ¬ ThrowsUntouched (SliceData.appendBytesInPlace input appendTag shift firstDataByte bytes
      (count + 1) 0 0 bits ⟨slice, 0⟩) := by
  unfold SliceData.appendBytesInPlace
  simp only [Nat.add_zero]
  rw [get_bind, validate_of_true hroom, bind_ok (lift_ok _ _)]
  apply not_throwsUntouched_lift fun e => load_error
  intro byte _
  apply not_throwsUntouched_lift
  · intro e he
    rw [if_pos trivial] at he
    simp only at he
    cases hload : load slice.data firstDataByte with
    | ok old =>
      rw [hload] at he
      cases he
    | error e' =>
      rw [hload] at he
      rw [← Except.error.inj he]
      exact load_error hload
  intro first _
  apply not_throwsUntouched_store
  split
  · exact (storeInPlace_raises _ _).bind fun _ => appendBytesInPlace_raises _ _ _ _
  · exact appendBytesInPlace_raises _ _ _ _

theorem not_throwsUntouched_bind {x : InPlace β} {f : β → InPlace α} {s : SliceState}
    (hx : ¬ ThrowsUntouched (x s)) (hf : ∀ value next, ¬ ThrowsUntouched (f value next)) :
    ¬ ThrowsUntouched ((x >>= f) s) := by
  rw [bind_apply]
  cases hrun : x s with
  | ok value next => exact hf value next
  | error e next =>
    rintro ⟨error, _, heq, hzero⟩
    cases heq
    exact hx ⟨error, next, hrun, hzero⟩

theorem advanceInPlace_throws (bits : Nat) (s : SliceState) :
    ¬ ThrowsUntouched (SliceData.advanceInPlace bits s) := by
  rintro ⟨error, next, hrun, -⟩
  cases hrun

theorem throwsUntouched_iff (htold : Told slice) :
    (∃ error, SliceData.appendInPlace input (input.length * 8) appendTag ⟨slice, 0⟩ =
        .error (.thrown error) ⟨slice, 0⟩) ↔
      8 * slice.remainingBits < input.length % 256 := by
  have hbytes : input.length * 8 / 8 % 256 = input.length % 256 := by omega
  constructor
  · rintro ⟨error, hrun⟩
    by_contra hlong
    have hremaining : input.length % 256 ≤ slice.remainingBits * 8 := by omega
    refine absurd ⟨error, _, hrun, rfl⟩ (?_ : ¬ ThrowsUntouched _)
    unfold SliceData.appendInPlace
    simp only [hbytes]
    rw [get_bind, validate_of_true hremaining, bind_ok (lift_ok _ _)]
    split
    next hcopied =>
      apply not_throwsUntouched_lift fun e => loadMany_error
      intro block _
      apply not_throwsUntouched_lift fun e => storeMany_error
      intro data _
      exact advanceInPlace_throws _ _
    next hshifted =>
      have hpos : 0 < input.length % 256 := by omega
      have hroom : slice.dataWindowStart / 8 % 256 < slice.dataSizeBytes := by
        have hsize := htold.size
        have hwindow := htold.window
        unfold SliceData.remainingBits at hremaining
        omega
      obtain ⟨count, hcount⟩ := Nat.exists_eq_succ_of_ne_zero (Nat.ne_of_gt hpos)
      rw [hcount]
      apply not_throwsUntouched_bind (appendBytesInPlace_touched hroom)
      intro total next
      exact advanceInPlace_throws _ _
  · intro hshort
    have hcheck : ¬ input.length % 256 ≤ slice.remainingBits * 8 := by omega
    refine ⟨.cellUnderflow, ?_⟩
    unfold SliceData.appendInPlace
    simp only [hbytes]
    rw [get_bind, validate, require, if_neg hcheck]
    rfl

/-- What has been appended in place is what `append` computes. -/
theorem append_of_inPlace {bits : Nat} {s after : SliceState} {value : Unit}
    (hrun : SliceData.appendInPlace input bits appendTag s = .ok value after) :
    s.slice.append input bits appendTag = .ok after.slice := by
  have hfollows := @appendInPlace_follows input appendTag bits s
  rw [hrun] at hfollows
  obtain ⟨_, happend, rfl⟩ := hfollows
  exact happend

theorem inPlace_of_append {bits : Nat} {s : SliceState} {next : SliceData}
    (happend : s.slice.append input bits appendTag = .ok next) :
    ∃ after, SliceData.appendInPlace input bits appendTag s = .ok () after ∧
      after.slice = next := by
  obtain ⟨_, after, hrun, hslice⟩ := appendInPlace_follows.of_ok happend
  exact ⟨after, hrun, hslice.symm⟩

/-- Appending is concatenation, and refuses what does not fit, exactly where the bytes
exist, no tag is missing on a byte boundary and the check on bits has been left far
behind. -/
theorem append_law_iff (htold : Told slice) (hne : input ≠ []) :
    AppendLaw slice input appendTag ↔ AppendsWhen slice input appendTag := by
  constructor
  · intro hlaw
    refine ⟨fun hfits => ?_, fun hfits htag haligned => ?_, fun hnot => ?_⟩
    · obtain ⟨after, hrun, happended⟩ := hlaw.fits hfits
      have happend := append_of_inPlace hrun
      exact happended.exists_data hne (append_length happend)
    · subst htag
      obtain ⟨after, hrun, happended⟩ := hlaw.fits hfits
      have happend := append_of_inPlace hrun
      exact happended.tag_there hne haligned (hfits.length_lt htold) hfits.length_le happend
    · exact (throwsUntouched_iff htold).mp (hlaw.refused hnot)
  · intro hwhen
    refine ⟨fun hfits => ?_, fun hnot => ?_⟩
    · obtain ⟨next, happend, happended⟩ :=
        append_fits htold hne hfits (hwhen.exists_data hfits) (hwhen.tag_there hfits)
      obtain ⟨after, hrun, hslice⟩ := @inPlace_of_append _ _ _ ⟨slice, 0⟩ _ happend
      exact ⟨after, hrun, hslice ▸ happended⟩
    · exact (throwsUntouched_iff htold).mpr (hwhen.far_too_long hnot)

end

theorem append_law_shifted : AppendLaw ⟨[0xAB, 0, 0], 4, 24, 3⟩ [0xCD] true := by
  refine (append_law_iff ⟨by decide, by decide, by decide⟩ (List.cons_ne_nil _ _)).mpr ⟨?_, ?_, ?_⟩
  · exact fun _ => by decide
  · exact fun _ _ haligned => absurd haligned (by decide)
  · exact fun hnot => absurd (by decide : 8 * [(0xCD : UInt8)].length + 1 ≤ 24 - 4) hnot

/-- No tag is written at a cursor of 0; and the second of two bytes is refused when the
first has been written. -/
theorem append_breaks_law :
    ¬ AppendLaw ⟨[0, 0], 0, 16, 2⟩ [0xFF] true ∧
      ¬ AppendLaw ⟨[0xAB], 4, 8, 1⟩ [0xCD, 0xEF] false := by
  constructor
  · intro hlaw
    obtain ⟨after, hrun, happended⟩ := hlaw.fits (by decide : 8 * 1 + 1 ≤ 16)
    have hafter : (⟨⟨[0xFF, 0], 8, 16, 2⟩, 1⟩ : SliceState) = after :=
      (EStateM.Result.ok.inj hrun).2
    subst hafter
    have htag := happended.tagged rfl
    exact absurd htag (by decide)
  · intro hlaw
    obtain ⟨error, hrun⟩ := hlaw.refused (by decide : ¬ 8 * 2 + 0 ≤ 8 - 4)
    have hstate := (EStateM.Result.error.inj hrun).2
    exact absurd (congrArg SliceState.stores hstate) (by decide)

end EverscaleLedger.Properties
