import EverscaleLedger.Properties.Display
import EverscaleLedger.Properties.Reading

/-! What each decoder of `message.c` has done when it succeeds: how far it moved
the slices it was given, and which strings it wrote. -/
namespace EverscaleLedger.Properties

open Library Source Slice

/-! The header of an internal message. -/

/-- Where a message header ends: four flag bits, two addresses, the amount with
its length, one bit for other currencies, two empty fees and two timestamps. -/
def headerEnd (slice : SliceData) (position : Nat) : Nat :=
  let sender := position + 4
  let recipient := sender + addressBits slice sender
  let amount := recipient + addressBits slice recipient
  amount + 4 + intAt slice amount 4 * 8 + 105

theorem deserializeIntMessageHeader_ok {sdk : Sdk} {locals : Locals} {slice next : SliceData}
    {flags : Nat} {ctx : SignTransactionContext} {display result : Display}
    (h : deserializeIntMessageHeader sdk locals slice flags ctx display = .ok (next, result)) :
    next = movedTo slice (headerEnd slice slice.dataWindowStart) ∧
      Shown result.amountStr ∧ Shown result.addressStr := by
  simp only [deserializeIntMessageHeader, bind_eq_ok, validate_eq_ok, pure_eq_ok,
    Prod.mk.injEq] at h
  obtain ⟨⟨_, s1⟩, h1, _, _, ⟨_, s2⟩, h2, ⟨_, s3⟩, h3, ⟨_, s4⟩, h4, ⟨s5, _, _⟩, h5,
    ⟨s6, wc, address⟩, h6, ⟨amountBytes, s7⟩, h7, _, _, ⟨s8, amount⟩, h8, shown, h9, ⟨_, s9⟩, h10,
    ⟨_, s10⟩, h11, _, _, ⟨_, s11⟩, h12, _, _, ⟨_, s12⟩, h13, ⟨_, s13⟩, h14, rfl, rfl⟩ := h
  obtain ⟨rfl, -⟩ := getNextBit_ok h1
  obtain ⟨rfl, -⟩ := getNextBit_ok h2
  obtain ⟨rfl, -⟩ := getNextBit_ok h3
  obtain ⟨rfl, -⟩ := getNextBit_ok h4
  obtain rfl := deserializeAddress_ok h5
  obtain rfl := deserializeAddress_ok h6
  obtain ⟨rfl, rfl, -⟩ := getNextInt_ok h7
  obtain rfl := deserializeValue_ok h8
  obtain ⟨rfl, -⟩ := getNextBit_ok h10
  obtain ⟨rfl, -⟩ := getNextInt_ok h11
  obtain ⟨rfl, -⟩ := getNextInt_ok h12
  obtain ⟨rfl, -⟩ := getNextInt_ok h13
  obtain ⟨rfl, -⟩ := getNextInt_ok h14
  obtain ⟨hamount, haddress, -⟩ := setAmount_ok h9
  refine ⟨?_, hamount, haddress ▸ setDstAddress_shown ..⟩
  simp only [movedTo_movedTo, movedTo_start, addressBits_movedTo, intAt_movedTo, headerEnd]

/-! The token body. -/

/-- The source after a read of some bits through the current pointer. -/
def moved (source : TokenSource) (bits : Nat) : TokenSource :=
  source.advance (movedTo source.current (source.current.dataWindowStart + bits))

theorem needBits_ref {s r : SliceData} {onRef : Bool} {bits : Nat} {source : TokenSource}
    (h : TokenSource.needBits ⟨s, some r, onRef⟩ bits = .ok source) :
    source = ⟨s, some r, onRef || decide (s.remainingBits < bits)⟩ := by
  unfold TokenSource.needBits at h
  cases onRef with
  | true =>
    split at h <;> exact (Except.ok.inj h).symm
  | false =>
    simp only [TokenSource.current, Bool.false_eq_true, if_false] at h
    by_cases hshort : s.remainingBits < bits
    · rw [if_pos hshort] at h
      rw [decide_eq_true hshort]
      exact (Except.ok.inj h).symm
    · rw [if_neg hshort] at h
      rw [decide_eq_false hshort]
      exact (Except.ok.inj h).symm

theorem needBits_alone {s : SliceData} {bits : Nat} {source : TokenSource}
    (h : TokenSource.needBits ⟨s, none, false⟩ bits = .ok source) : source = ⟨s, none, false⟩ := by
  unfold TokenSource.needBits at h
  split at h
  · cases h
  · exact (Except.ok.inj h).symm

theorem deserializeTokenAmount_ok {source next : TokenSource} {ctx : SignTransactionContext}
    {display result : Display}
    (h : deserializeTokenAmount source ctx display = .ok (next, result)) :
    Shown result.amountStr ∧ result.addressStr = display.addressStr ∧
      ∃ needed, source.needBits (amountLength * 8) = .ok needed ∧
        next = moved needed (amountLength * 8) := by
  simp only [deserializeTokenAmount, bind_eq_ok, pure_eq_ok, Prod.mk.injEq] at h
  obtain ⟨needed, hneed, ⟨slice, amount⟩, hvalue, shown, hamount, rfl, rfl⟩ := h
  obtain ⟨hshown, haddress, -⟩ := setAmount_ok hamount
  obtain rfl := deserializeValue_ok hvalue
  exact ⟨hshown, haddress, needed, hneed, rfl⟩

/-- Whether the arguments of a token function come from the referenced cell, when
its id did not: they do once the first slice is too short. -/
def ArgumentsOnRef (rest functionId : Nat) : Prop :=
  match TokenFunction.ofId functionId with
  | some .transfer => rest < amountLength * 8 + addressLength * 8
  | some .burn => rest < amountLength * 8
  | none => False

/-- Whether the decoder of a token body takes bits from the referenced cell. -/
def ReadsRef (rest refBits functionId : Nat) : Prop :=
  if rest < 32 then 32 ≤ refBits else ArgumentsOnRef (rest - 32) functionId

/-- The flow of a token body, and the strings of its screen. -/
structure TokenBodyShown (flow : Flow) (before after : Display) : Prop where
  flow_token : flow = .transfer ∨ flow = .burn
  shown : Shown before.amountStr → Shown before.addressStr → FlowShown flow after

/-- What a token body has read once its function id is known. -/
theorem deserializeTokenFunction_ok {sdk : Sdk} {locals : Locals} {source final : TokenSource}
    {ctx : SignTransactionContext} {display result : Display} {flow : Flow} {functionId : Nat}
    (h : deserializeTokenFunction sdk locals source functionId ctx display =
      .ok (flow, final, result)) :
    TokenBodyShown flow display result ∧
      match TokenFunction.ofId functionId with
      | some .transfer => ∃ needed address, source.needBits (amountLength * 8) = .ok needed ∧
          (moved needed (amountLength * 8)).needBits (addressLength * 8) = .ok address ∧
          final = moved address (addressBits address.current address.current.dataWindowStart)
      | some .burn => ∃ needed, source.needBits (amountLength * 8) = .ok needed ∧
          final = moved needed (amountLength * 8)
      | none => final = source := by
  unfold deserializeTokenFunction at h
  cases hfunction : TokenFunction.ofId functionId with
  | none =>
    simp only [hfunction, pure_eq_ok, Prod.mk.injEq] at h
    obtain ⟨rfl, rfl, rfl⟩ := h
    exact ⟨⟨Or.inl rfl, fun hamount haddress => ⟨hamount, haddress⟩⟩, rfl⟩
  | some function =>
    cases function with
    | transfer =>
      simp only [hfunction, bind_eq_ok, pure_eq_ok, Prod.mk.injEq] at h
      obtain ⟨⟨amountSource, shown⟩, hamount, address, hneed, ⟨slice, wc, bytes⟩, haddress, rfl,
        rfl, rfl⟩ := h
      obtain ⟨hshown, -, needed, hneeded, rfl⟩ := deserializeTokenAmount_ok hamount
      obtain rfl := deserializeAddress_ok haddress
      exact ⟨⟨Or.inl rfl, fun _ _ => ⟨hshown, setDstAddress_shown ..⟩⟩, needed, address,
        hneeded, hneed, rfl⟩
    | burn =>
      simp only [hfunction, bind_eq_ok, pure_eq_ok, Prod.mk.injEq] at h
      obtain ⟨⟨amountSource, shown⟩, hamount, rfl, rfl, rfl⟩ := h
      obtain ⟨hshown, -, needed, hneeded, rfl⟩ := deserializeTokenAmount_ok hamount
      exact ⟨⟨Or.inr rfl, fun _ _ => hshown⟩, needed, hneeded, rfl⟩

/-- A source that has come to the referenced slice stays on it. -/
theorem moved_onRef (s r : SliceData) (bits : Nat) :
    moved ⟨s, some r, true⟩ bits = ⟨s, some (movedTo r (r.dataWindowStart + bits)), true⟩ := rfl

theorem current_onRef (s r : SliceData) : TokenSource.current ⟨s, some r, true⟩ = r := rfl

theorem current_onSlice (s : SliceData) (r : Option SliceData) :
    TokenSource.current ⟨s, r, false⟩ = s := rfl

theorem moved_onSlice (s : SliceData) (r : Option SliceData) (bits : Nat) :
    moved ⟨s, r, false⟩ bits = ⟨movedTo s (s.dataWindowStart + bits), r, false⟩ := rfl

/-- The arguments of a token function, where all of them come from one slice. -/
def argumentsIn (slice : SliceData) (functionId : Nat) : Nat :=
  match TokenFunction.ofId functionId with
  | some .transfer =>
      amountLength * 8 + addressBits slice (slice.dataWindowStart + amountLength * 8)
  | some .burn => amountLength * 8
  | none => 0

/-- The arguments that come from the slice they start in, where there is one behind it. -/
def argumentsHere (slice : SliceData) (functionId : Nat) : Nat :=
  match TokenFunction.ofId functionId with
  | some .transfer =>
      if slice.remainingBits < amountLength * 8 then 0
      else if slice.remainingBits < amountLength * 8 + addressLength * 8 then amountLength * 8
      else amountLength * 8 + addressBits slice (slice.dataWindowStart + amountLength * 8)
  | some .burn => if slice.remainingBits < amountLength * 8 then 0 else amountLength * 8
  | none => 0

def argumentsBehind (slice ref : SliceData) (functionId : Nat) : Nat :=
  match TokenFunction.ofId functionId with
  | some .transfer =>
      if slice.remainingBits < amountLength * 8 then
        amountLength * 8 + addressBits ref (ref.dataWindowStart + amountLength * 8)
      else if slice.remainingBits < amountLength * 8 + addressLength * 8 then
        addressBits ref ref.dataWindowStart
      else 0
  | some .burn => if slice.remainingBits < amountLength * 8 then amountLength * 8 else 0
  | none => 0

/-- A slice behind the function id at its cursor, and the id. -/
def behindId (slice : SliceData) : SliceData := movedTo slice (slice.dataWindowStart + 32)

def idAt (slice : SliceData) : Nat := intAt slice slice.dataWindowStart 32

/-- The bits that a token body takes from the only slice there is. -/
def tokenAlone (slice : SliceData) : Nat :=
  if slice.remainingBits < 32 then 0 else 32 + argumentsIn (behindId slice) (idAt slice)

/-- The bits that a token body takes from the slice it starts in, and from the one behind. -/
def tokenHere (slice : SliceData) : Nat :=
  if slice.remainingBits < 32 then 0 else 32 + argumentsHere (behindId slice) (idAt slice)

def tokenBehind (slice ref : SliceData) : Nat :=
  if slice.remainingBits < 32 then tokenAlone ref
  else argumentsBehind (behindId slice) ref (idAt slice)

theorem remainingBits_movedTo (slice : SliceData) (bits : Nat) :
    (movedTo slice (slice.dataWindowStart + bits)).remainingBits = slice.remainingBits - bits := by
  simp only [SliceData.remainingBits, movedTo_start, movedTo_end]
  omega

section

variable {sdk : Sdk} {locals : Locals} {s r : SliceData} {final : TokenSource}
  {ctx : SignTransactionContext} {display result : Display} {flow : Flow} {functionId : Nat}

/-- On the referenced slice, all arguments come from it. -/
theorem deserializeTokenFunction_onRef
    (h : deserializeTokenFunction sdk locals ⟨s, some r, true⟩ functionId ctx display =
      .ok (flow, final, result)) :
    TokenBodyShown flow display result ∧ final.slice = s ∧
      final.refSlice = some (movedTo r (r.dataWindowStart + argumentsIn r functionId)) := by
  obtain ⟨hshown, h⟩ := deserializeTokenFunction_ok h
  refine ⟨hshown, ?_⟩
  unfold argumentsIn
  cases hfunction : TokenFunction.ofId functionId with
  | none =>
    simp only [hfunction] at h
    subst h
    exact ⟨rfl, rfl⟩
  | some function =>
    cases function with
    | transfer =>
      simp only [hfunction] at h
      obtain ⟨needed, address, hamount, haddress, rfl⟩ := h
      cases needBits_ref hamount
      rw [Bool.true_or, moved_onRef] at haddress
      cases needBits_ref haddress
      simp only [Bool.true_or, moved_onRef, current_onRef, movedTo_start, movedTo_movedTo,
        addressBits_movedTo, Nat.add_assoc, and_self]
    | burn =>
      simp only [hfunction] at h
      obtain ⟨needed, hamount, rfl⟩ := h
      cases needBits_ref hamount
      exact ⟨rfl, rfl⟩

/-- From the first slice, the arguments go over to the referenced one where the first
gets too short. -/
theorem deserializeTokenFunction_ref
    (h : deserializeTokenFunction sdk locals ⟨s, some r, false⟩ functionId ctx display =
      .ok (flow, final, result)) :
    TokenBodyShown flow display result ∧
      final.slice = movedTo s (s.dataWindowStart + argumentsHere s functionId) ∧
      final.refSlice = some (movedTo r (r.dataWindowStart + argumentsBehind s r functionId)) := by
  obtain ⟨hshown, h⟩ := deserializeTokenFunction_ok h
  refine ⟨hshown, ?_⟩
  unfold argumentsHere argumentsBehind
  cases hfunction : TokenFunction.ofId functionId with
  | none =>
    simp only [hfunction] at h
    subst h
    exact ⟨rfl, rfl⟩
  | some function =>
    cases function with
    | transfer =>
      simp only [hfunction] at h ⊢
      obtain ⟨needed, address, hamount, haddress, rfl⟩ := h
      cases needBits_ref hamount
      by_cases hshort : s.remainingBits < amountLength * 8
      · rw [decide_eq_true hshort, Bool.false_or, moved_onRef] at haddress
        cases needBits_ref haddress
        simp only [Bool.true_or, moved_onRef, current_onRef, movedTo_start, movedTo_movedTo,
          addressBits_movedTo, Nat.add_assoc, if_pos hshort, Nat.add_zero, movedTo_self, and_self]
      · rw [decide_eq_false hshort, Bool.false_or, moved_onSlice] at haddress
        cases needBits_ref haddress
        rw [if_neg hshort, if_neg hshort, Bool.false_or, remainingBits_movedTo]
        by_cases hrest : s.remainingBits < amountLength * 8 + addressLength * 8
        · rw [decide_eq_true (show s.remainingBits - amountLength * 8 < addressLength * 8 by omega),
            moved_onRef, current_onRef, if_pos hrest, if_pos hrest]
          exact ⟨rfl, rfl⟩
        · rw [decide_eq_false (show ¬ s.remainingBits - amountLength * 8 < addressLength * 8 by omega),
            moved_onSlice, current_onSlice, if_neg hrest, if_neg hrest]
          simp only [movedTo_start, movedTo_movedTo, addressBits_movedTo, Nat.add_assoc,
            Nat.add_zero, movedTo_self, and_self]
    | burn =>
      simp only [hfunction] at h ⊢
      obtain ⟨needed, hamount, rfl⟩ := h
      cases needBits_ref hamount
      by_cases hshort : s.remainingBits < amountLength * 8
      · rw [decide_eq_true hshort, Bool.false_or, moved_onRef, if_pos hshort, if_pos hshort]
        exact ⟨rfl, rfl⟩
      · rw [decide_eq_false hshort, Bool.false_or, moved_onSlice, if_neg hshort, if_neg hshort]
        exact ⟨rfl, rfl⟩

theorem deserializeTokenFunction_alone
    (h : deserializeTokenFunction sdk locals ⟨s, none, false⟩ functionId ctx display =
      .ok (flow, final, result)) :
    TokenBodyShown flow display result ∧
      final.slice = movedTo s (s.dataWindowStart + argumentsIn s functionId) := by
  obtain ⟨hshown, h⟩ := deserializeTokenFunction_ok h
  refine ⟨hshown, ?_⟩
  unfold argumentsIn
  cases hfunction : TokenFunction.ofId functionId with
  | none =>
    simp only [hfunction] at h
    subst h
    rfl
  | some function =>
    cases function with
    | transfer =>
      simp only [hfunction] at h ⊢
      obtain ⟨needed, address, hamount, haddress, rfl⟩ := h
      cases needBits_alone hamount
      cases needBits_alone haddress
      simp only [moved_onSlice, current_onSlice, movedTo_start, movedTo_movedTo,
        addressBits_movedTo, Nat.add_assoc]
    | burn =>
      simp only [hfunction] at h ⊢
      obtain ⟨needed, hamount, rfl⟩ := h
      cases needBits_alone hamount
      rfl

/-- Where a token body ends in each of the two slices. -/
theorem deserializeTokenBody_ref
    (h : deserializeTokenBody sdk locals ⟨s, some r, false⟩ ctx display = .ok (flow, final, result)) :
    TokenBodyShown flow display result ∧
      final.slice = movedTo s (s.dataWindowStart + tokenHere s) ∧
      final.refSlice = some (movedTo r (r.dataWindowStart + tokenBehind s r)) := by
  unfold deserializeTokenBody at h
  unfold tokenHere tokenBehind tokenAlone
  simp only at h
  split at h
  next hempty =>
    rw [pure_eq_ok, Prod.mk.injEq, Prod.mk.injEq] at h
    obtain ⟨rfl, rfl, rfl⟩ := h
    rw [if_pos hempty.1, if_pos hempty.1, if_pos hempty.2]
    exact ⟨⟨Or.inl rfl, fun hamount haddress => ⟨hamount, haddress⟩⟩, rfl, rfl⟩
  next hempty =>
    simp only [bind_eq_ok] at h
    obtain ⟨⟨functionId, slice⟩, hid, h⟩ := h
    obtain ⟨rfl, rfl, -⟩ := getNextInt_ok hid
    by_cases hshort : s.remainingBits < 32
    · -- the function id was read from the referenced slice
      rw [decide_eq_true hshort] at h
      obtain ⟨hshown, hslice, href⟩ :=
        deserializeTokenFunction_onRef h
      rw [if_pos hshort, if_pos hshort, if_neg fun hlast => hempty ⟨hshort, hlast⟩]
      refine ⟨hshown, hslice, href.trans ?_⟩
      rw [movedTo_movedTo, movedTo_start, Nat.add_assoc]
      rfl
    · rw [decide_eq_false hshort] at h
      obtain ⟨hshown, hslice, href⟩ :=
        deserializeTokenFunction_ref h
      rw [if_neg hshort, if_neg hshort]
      refine ⟨hshown, hslice.trans ?_, href⟩
      rw [movedTo_movedTo, movedTo_start, Nat.add_assoc]
      rfl

theorem deserializeTokenBody_alone
    (h : deserializeTokenBody sdk locals ⟨s, none, false⟩ ctx display = .ok (flow, final, result)) :
    TokenBodyShown flow display result ∧
      final.slice = movedTo s (s.dataWindowStart + tokenAlone s) := by
  unfold deserializeTokenBody at h
  unfold tokenAlone
  simp only at h
  split at h
  next hempty =>
    rw [pure_eq_ok, Prod.mk.injEq, Prod.mk.injEq] at h
    obtain ⟨rfl, rfl, rfl⟩ := h
    rw [if_pos hempty.1]
    exact ⟨⟨Or.inl rfl, fun hamount haddress => ⟨hamount, haddress⟩⟩, rfl⟩
  next hempty =>
    have hlong : ¬ s.remainingBits < 32 := by omega
    simp only [bind_eq_ok] at h
    obtain ⟨⟨functionId, slice⟩, hid, h⟩ := h
    obtain ⟨rfl, rfl, -⟩ := getNextInt_ok hid
    rw [decide_eq_false hlong] at h
    obtain ⟨hshown, hslice⟩ :=
      deserializeTokenFunction_alone h
    rw [if_neg hlong]
    refine ⟨hshown, hslice.trans ?_⟩
    rw [movedTo_movedTo, movedTo_start, Nat.add_assoc]
    rfl

end

theorem tokenAlone_pos_iff (slice : SliceData) : 0 < tokenAlone slice ↔ 32 ≤ slice.remainingBits := by
  unfold tokenAlone
  split <;> omega

/-- Bits are taken from the referenced slice exactly where the decoder goes over to it. -/
theorem tokenBehind_pos_iff (s r : SliceData) :
    0 < tokenBehind s r ↔ ReadsRef s.remainingBits r.remainingBits (idAt s) := by
  unfold tokenBehind ReadsRef
  by_cases hshort : s.remainingBits < 32
  · rw [if_pos hshort, if_pos hshort]
    exact tokenAlone_pos_iff r
  · have haddress := two_le_addressBits r r.dataWindowStart
    have hamount : 0 < amountLength := by decide
    have hrest : (behindId s).remainingBits = s.remainingBits - 32 := remainingBits_movedTo s 32
    rw [if_neg hshort, if_neg hshort]
    unfold argumentsBehind ArgumentsOnRef
    rw [hrest]
    cases TokenFunction.ofId (idAt s) with
    | none => simp
    | some function =>
      cases function with
      | transfer =>
        simp only
        split
        · omega
        · split <;> omega
      | burn =>
        simp only
        split <;> omega

/-! The parameters of contract wallets. -/

theorem deserializeArray_length {input bytes : List UInt8} {inSize offset outSize : Nat}
    (h : deserializeArray input inSize offset outSize = .ok bytes) : bytes.length = outSize := by
  have horInto : ∀ {out result : List UInt8} {index value : Nat},
      orInto out index value = .ok result → result.length = out.length := by
    intro out result index value h
    simp only [orInto, bind_eq_ok, store_eq_ok] at h
    obtain ⟨_, _, _, rfl⟩ := h
    exact List.length_set
  refine foldlM_invariant (fun out : List UInt8 => out.length = outSize) _ ?_ _ _ _
    List.length_replicate h
  intro out j next hout hstep
  simp only [bind_eq_ok, store_eq_ok] at hstep
  obtain ⟨_, _, byte, _, shifted, ⟨_, rfl⟩, filled, hfilled, hstep⟩ := hstep
  have hlength : filled.length = outSize := by
    split at hfilled
    · simp only [bind_eq_ok] at hfilled
      obtain ⟨_, _, hfilled⟩ := hfilled
      rw [horInto hfilled, List.length_set, hout]
    · rw [pure_eq_ok] at hfilled
      rw [← hfilled, List.length_set, hout]
  split at hstep
  · rw [horInto hstep, hlength]
  · rw [pure_eq_ok] at hstep
    rw [← hstep, hlength]

/-- Recipient, amount and the bounce bit. -/
def recipientEnd (slice : SliceData) : Nat :=
  slice.dataWindowStart + addressBits slice slice.dataWindowStart + amountLength * 8 + 1

theorem deserializeRecipient_ok {sdk : Sdk} {locals : Locals} {slice next : SliceData}
    {amount : List UInt8} {display result : Display}
    (h : deserializeRecipient sdk locals slice display = .ok (next, amount, result)) :
    next = movedTo slice (recipientEnd slice) ∧ Shown result.addressStr := by
  simp only [deserializeRecipient, bind_eq_ok, pure_eq_ok, Prod.mk.injEq] at h
  obtain ⟨⟨s1, wc, address⟩, h1, ⟨s2, value⟩, h2, ⟨bounce, s3⟩, h3, rfl, rfl, rfl⟩ := h
  obtain rfl := deserializeAddress_ok h1
  obtain rfl := deserializeValue_ok h2
  obtain ⟨rfl, -⟩ := getNextBit_ok h3
  exact ⟨rfl, setDstAddress_shown ..⟩

/-- The bits that the parameters of a function take. -/
def paramsBits (slice : SliceData) : ContractFunction → Nat
  | .deployTransaction => 0
  | .sendTransaction => addressBits slice slice.dataWindowStart + amountLength * 8 + 1 + 8
  | .submitTransaction => addressBits slice slice.dataWindowStart + amountLength * 8 + 1 + 1
  | .confirmTransaction => transactionIdLength * 8

theorem paramsBits_pos_iff (slice : SliceData) (function : ContractFunction) :
    0 < paramsBits slice function ↔ function ≠ .deployTransaction := by
  cases function <;> simp [paramsBits, transactionIdLength]

/-- What the parameters of a function give: its flow, with the strings of its
screen, and bits of the gift slice except for a deployment. -/
structure ParamsRead (function : ContractFunction) (before after : SliceData) (flow : Flow)
    (display : Display) : Prop where
  flow_eq : flow = match function with
    | .deployTransaction => .deploy
    | .sendTransaction | .submitTransaction => .transfer
    | .confirmTransaction => .confirm
  shown : FlowShown flow display
  start : if function = .deployTransaction then after = before
    else before.dataWindowStart < after.dataWindowStart

theorem deserializeMultisigParams_ok {sdk : Sdk} {locals : Locals} {slice next : SliceData}
    {functionId : Nat} {wc : UInt8} {address : List UInt8} {ctx : SignTransactionContext}
    {display result : Display} {flow : Flow}
    (h : deserializeMultisigParams sdk locals slice functionId wc address ctx display =
      .ok (flow, next, result)) :
    ∃ function, ContractFunction.ofId functionId = some function ∧
      ParamsRead function slice next flow result ∧
      next = movedTo slice (slice.dataWindowStart + paramsBits slice function) := by
  unfold deserializeMultisigParams at h
  cases hfunction : ContractFunction.ofId functionId with
  | none =>
    rw [hfunction] at h
    cases h
  | some function =>
    refine ⟨function, rfl, ?_⟩
    cases function with
    | deployTransaction =>
      simp only [hfunction, pure_eq_ok, Prod.mk.injEq] at h
      obtain ⟨rfl, rfl, rfl⟩ := h
      exact ⟨⟨rfl, setDstAddress_shown .., rfl⟩, rfl⟩
    | sendTransaction =>
      simp only [hfunction, bind_eq_ok, pure_eq_ok, Prod.mk.injEq] at h
      obtain ⟨⟨s1, amount, d1⟩, hrecipient, ⟨flags, s2⟩, hflags, d2, hamount, rfl, rfl, rfl⟩ := h
      obtain ⟨rfl, haddress⟩ := deserializeRecipient_ok hrecipient
      obtain rfl := getNextByte_ok hflags
      obtain ⟨hshown, hsame, -⟩ := setAmount_ok hamount
      refine ⟨⟨rfl, ⟨hshown, hsame ▸ haddress⟩, ?_⟩, ?_⟩
      · exact Nat.lt_add_right _ (Nat.lt_succ_of_le (Nat.le_add_right_of_le (Nat.le_add_right ..)))
      · simp only [movedTo_movedTo, movedTo_start, recipientEnd, paramsBits, Nat.add_assoc]
    | submitTransaction =>
      simp only [hfunction, bind_eq_ok, pure_eq_ok, Prod.mk.injEq] at h
      obtain ⟨⟨s1, amount, d1⟩, hrecipient, ⟨allBalance, s2⟩, hflags, d2, hamount, rfl, rfl,
        rfl⟩ := h
      obtain ⟨rfl, haddress⟩ := deserializeRecipient_ok hrecipient
      obtain ⟨rfl, -⟩ := getNextBit_ok hflags
      obtain ⟨hshown, hsame, -⟩ := setAmount_ok hamount
      refine ⟨⟨rfl, ⟨hshown, hsame ▸ haddress⟩, ?_⟩, ?_⟩
      · exact Nat.lt_add_right _ (Nat.lt_succ_of_le (Nat.le_add_right_of_le (Nat.le_add_right ..)))
      · simp only [movedTo_movedTo, movedTo_start, recipientEnd, paramsBits, Nat.add_assoc]
    | confirmTransaction =>
      simp only [hfunction, bind_eq_ok, pure_eq_ok, Prod.mk.injEq] at h
      obtain ⟨⟨s1, id⟩, hid, d1, hshown, rfl, rfl, rfl⟩ := h
      have hnext := deserializeValue_ok hid
      refine ⟨⟨rfl, setTransactionId_ok ?_ hshown, ?_⟩, hnext⟩
      · simp only [deserializeValue, bind_eq_ok, pure_eq_ok, Prod.mk.injEq] at hid
        obtain ⟨bytes, harray, _, _, _, rfl⟩ := hid
        rw [deserializeArray_length harray]
        decide
      · rw [hnext]
        exact Nat.lt_add_of_pos_right (by decide)

/-! The header of a function call. -/

/-- Public key, two times and the function id. -/
def callHeaderBits (slice : SliceData) : Nat :=
  if bitAt slice slice.dataWindowStart ≠ 0 then 1 + publicKeyLength * 8 + 128 else 1 + 128

theorem deserializeContractHeader_ok {slice next : SliceData} {functionId : Nat}
    (h : deserializeContractHeader slice = .ok (functionId, next)) :
    next = movedTo slice (slice.dataWindowStart + callHeaderBits slice) := by
  simp only [deserializeContractHeader, bind_eq_ok] at h
  obtain ⟨⟨present, s1⟩, h1, s2, h2, ⟨_, s3⟩, h3, ⟨_, s4⟩, h4, h5⟩ := h
  obtain ⟨rfl, rfl⟩ := getNextBit_ok h1
  have hkey : s2 = movedTo slice (slice.dataWindowStart + (callHeaderBits slice - 128)) := by
    unfold callHeaderBits
    simp only at h2
    split at h2
    next hpresent =>
      obtain ⟨rfl, -⟩ := moveBy_ok h2
      rw [if_pos hpresent, Nat.add_sub_cancel, movedTo_movedTo, movedTo_start, Nat.add_assoc]
    next habsent =>
      cases h2
      rw [if_neg habsent]
  subst hkey
  obtain ⟨rfl, -⟩ := getNextInt_ok h3
  obtain ⟨rfl, -⟩ := getNextInt_ok h4
  obtain ⟨rfl, -⟩ := getNextInt_ok h5
  have hlong : 128 ≤ callHeaderBits slice := by
    unfold callHeaderBits
    split <;> omega
  have hend : slice.dataWindowStart + (callHeaderBits slice - 128) + 64 + 32 + 32 =
      slice.dataWindowStart + callHeaderBits slice := by omega
  simp only [movedTo_movedTo, movedTo_start, hend]

theorem deserializeWalletV3_ok {slice next : SliceData} {flags : Nat}
    (h : deserializeWalletV3 slice = .ok (flags, next)) :
    next = movedTo slice (slice.dataWindowStart + 104) := by
  simp only [deserializeWalletV3, bind_eq_ok, validate_eq_ok, pure_eq_ok, Prod.mk.injEq] at h
  obtain ⟨⟨_, s1⟩, h1, _, _, ⟨_, s2⟩, h2, ⟨_, s3⟩, h3, ⟨_, s4⟩, h4, _, _, rfl, rfl⟩ := h
  obtain ⟨rfl, -⟩ := getNextInt_ok h1
  obtain ⟨rfl, -⟩ := getNextInt_ok h2
  obtain ⟨rfl, -⟩ := getNextInt_ok h3
  obtain rfl := getNextByte_ok h4
  simp only [movedTo_movedTo, movedTo_start]

end EverscaleLedger.Properties
