import EverscaleLedger.Properties.MessageGrammar

/-! Token bodies: what `deserialize_token_body` takes from a cell, and from the cell
behind it once the first one has too few bits. -/
namespace EverscaleLedger.Properties

open Library Source Slice

inductive TokenArguments where
  | transfer (amount : Vector UInt8 16) (recipient : AddressField)
  | burn (amount : Vector UInt8 16)
  | other

namespace TokenArguments

def function : TokenArguments → Option TokenFunction
  | transfer .. => some .transfer
  | burn _ => some .burn
  | other => none

/-- Each field with the number of bits that it is looked for in. -/
def fields : TokenArguments → List (Nat × List Bool)
  | transfer amount recipient =>
      [(amountLength * 8, Bits.ofBytes amount.toList), (addressLength * 8, recipient.bits)]
  | burn amount => [(amountLength * 8, Bits.ofBytes amount.toList)]
  | other => []

/-- What they say on the screen. -/
def shown (sdk : Sdk) (locals : Locals) (ctx : SignTransactionContext) (display : Display) :
    TokenArguments → Outcome (Flow × Display)
  | .transfer amount recipient => do
      let display ← setAmount amount.toList amountLength normalFlag ctx.decimals ctx.ticker display
      let address := recipient.read 0 locals.tokenAddress.toList
      pure (.transfer, setDstAddress sdk address.1 address.2 display)
  | .burn amount => do
      let display ← setAmount amount.toList amountLength normalFlag ctx.decimals ctx.ticker display
      pure (.burn, display)
  | .other => pure (.transfer, display)

end TokenArguments

/-- A call of a token wallet. The arguments of other functions are not looked at. -/
structure TokenCall where
  id : UInt32
  arguments : TokenArguments
  id_function : TokenFunction.ofId id.toNat = arguments.function

def TokenCall.fields (call : TokenCall) : List (Nat × List Bool) :=
  (32, Bits.ofNat 32 call.id.toNat) :: call.arguments.fields

/-! Where the bits of a body are. -/

/-- What is left for a body: in the only cell, in a cell with another one behind it, or in
the latter once it was turned to. -/
inductive Supply where
  | only (bits : List Bool)
  | front (bits behind : List Bool)
  | back (bits : List Bool)

namespace Supply

def bits : Supply → List Bool
  | only bits | front bits _ | back bits => bits

def withBits (rest : List Bool) : Supply → Supply
  | only _ => only rest
  | front _ behind => front rest behind
  | back _ => back rest

/-- Where a field of so many bits is looked for. -/
def turn (count : Nat) : Supply → Option Supply
  | only bits => if bits.length < count then none else some (only bits)
  | front bits behind => some (if bits.length < count then back behind else front bits behind)
  | back bits => some (back bits)

/-- Too little for a function id. -/
def Empty : Supply → Prop
  | only bits => bits.length < 32
  | front bits behind => bits.length < 32 ∧ behind.length < 32
  | back _ => False

/-- The fields are there, one behind the other, each where it is looked for. -/
def LaidOut : List (Nat × List Bool) → Supply → Prop
  | [], _ => True
  | (count, field) :: fields, supply => ∃ turned rest, supply.turn count = some turned ∧
      turned.bits = field ++ rest ∧ LaidOut fields (turned.withBits rest)

end Supply

/-- The body of a message, if one is looked at: it may be too short for a call. -/
inductive MessageBody where
  | absent
  | short
  | call (made : TokenCall)

namespace MessageBody

def CarriedBy (supply : Supply) : MessageBody → Prop
  | absent => False
  | short => supply.Empty
  | call made => supply.LaidOut made.fields

/-- What a body makes of the screen that the rest of the message gives. -/
def shown (sdk : Sdk) (locals : Locals) (ctx : SignTransactionContext) (flow : Flow)
    (display : Display) : MessageBody → Outcome (Flow × Display)
  | absent => .ok (flow, display)
  | short => .ok (.transfer, display)
  | call made => made.arguments.shown sdk locals ctx display

end MessageBody

/-- The slices have these bits left. -/
inductive SuppliedBy : TokenSource → Supply → Prop
  | only {slice : SliceData} {bits : List Bool} (hbits : Unread slice bits) :
      SuppliedBy ⟨slice, none, false⟩ (.only bits)
  | front {slice ref : SliceData} {bits behind : List Bool} (hbits : Unread slice bits)
      (hbehind : Unread ref behind) : SuppliedBy ⟨slice, some ref, false⟩ (.front bits behind)
  | back {slice ref : SliceData} {bits : List Bool} (hbits : Unread ref bits) :
      SuppliedBy ⟨slice, some ref, true⟩ (.back bits)

namespace SuppliedBy

variable {source needed : TokenSource} {supply turned : Supply}

theorem current (h : SuppliedBy source supply) : Unread source.current supply.bits := by
  cases h with
  | only hbits => exact hbits
  | front hbits _ => exact hbits
  | back hbits => exact hbits

theorem advance (h : SuppliedBy source supply) {next : SliceData} {rest : List Bool}
    (hnext : Unread next rest) : SuppliedBy (source.advance next) (supply.withBits rest) := by
  cases h with
  | only _ => exact .only hnext
  | front _ hbehind => exact .front hnext hbehind
  | back _ => exact .back hnext

/-- A field is looked for in the same place, and it is an error when there is none. -/
theorem needBits (h : SuppliedBy source supply) (count : Nat) :
    (∃ needed turned, source.needBits count = .ok needed ∧ supply.turn count = some turned ∧
      SuppliedBy needed turned) ∨
    (∃ error, source.needBits count = .error error) ∧ supply.turn count = none := by
  unfold TokenSource.needBits Supply.turn
  rw [h.current.remainingBits]
  cases h with
  | @only _ bits hbits =>
    by_cases hshort : (Supply.only bits).bits.length < count
    · rw [if_pos hshort]
      exact Or.inr ⟨⟨_, rfl⟩, if_pos hshort⟩
    · rw [if_neg hshort]
      exact Or.inl ⟨_, _, rfl, if_neg hshort, .only hbits⟩
  | @front _ _ bits behind hbits hbehind =>
    by_cases hshort : (Supply.front bits behind).bits.length < count
    · rw [if_pos hshort]
      exact Or.inl ⟨_, _, rfl, congrArg some (if_pos hshort), .back hbehind⟩
    · rw [if_neg hshort]
      exact Or.inl ⟨_, _, rfl, congrArg some (if_neg hshort), .front hbits hbehind⟩
  | @back slice ref bits hbits =>
    refine Or.inl ⟨⟨slice, some ref, true⟩, .back bits, ?_, rfl, .back hbits⟩
    split <;> rfl

theorem needBits_of_turn (h : SuppliedBy source supply) {count : Nat}
    (hturn : supply.turn count = some turned) :
    ∃ needed, source.needBits count = .ok needed ∧ SuppliedBy needed turned := by
  obtain ⟨needed, _, hneeded, hturned, hsupplied⟩ | ⟨-, hnone⟩ := h.needBits count
  · rw [hturn] at hturned
    obtain rfl := Option.some.inj hturned
    exact ⟨needed, hneeded, hsupplied⟩
  · rw [hturn] at hnone
    cases hnone

theorem of_needBits (h : SuppliedBy source supply) {count : Nat}
    (hneed : source.needBits count = .ok needed) :
    ∃ turned, supply.turn count = some turned ∧ SuppliedBy needed turned := by
  obtain ⟨_, turned, hneeded, hturned, hsupplied⟩ | ⟨⟨_, herror⟩, -⟩ := h.needBits count
  · rw [hneed] at hneeded
    obtain rfl := Except.ok.inj hneeded
    exact ⟨turned, hturned, hsupplied⟩
  · rw [hneed] at herror
    cases herror

end SuppliedBy

section

variable {sdk : Sdk} {locals : Locals} {ctx : SignTransactionContext} {source final : TokenSource}
  {supply : Supply} {display shown : Display} {flow : Flow} {functionId : Nat}
  {fields : List (Nat × List Bool)} {amount : Vector UInt8 16}

/-- The amount is the next field. -/
theorem SuppliedBy.tokenAmount (h : SuppliedBy source supply)
    (hlaid : supply.LaidOut ((amountLength * 8, Bits.ofBytes amount.toList) :: fields))
    (hset : setAmount amount.toList amountLength normalFlag ctx.decimals ctx.ticker display =
      .ok shown) :
    ∃ next behind, deserializeTokenAmount source ctx display = .ok (next, shown) ∧
      SuppliedBy next behind ∧ behind.LaidOut fields := by
  obtain ⟨turned, rest, hturn, hbits, hfields⟩ := hlaid
  obtain ⟨needed, hneeded, hsupplied⟩ := h.needBits_of_turn hturn
  obtain ⟨next, hvalue, hnext⟩ := (hbits ▸ hsupplied.current).deserializeValue
  rw [Vector.length_toList] at hvalue
  refine ⟨_, _, ?_, hsupplied.advance hnext, hfields⟩
  simp only [deserializeTokenAmount, hneeded, ok_bind]
  rw [show deserializeValue needed.current amountLength = _ from hvalue]
  simp only [ok_bind, hset]
  rfl

theorem SuppliedBy.of_tokenAmount {next : TokenSource} (h : SuppliedBy source supply)
    (hread : deserializeTokenAmount source ctx display = .ok (next, shown)) :
    ∃ (amount : Vector UInt8 16) (behind : Supply),
      setAmount amount.toList amountLength normalFlag ctx.decimals ctx.ticker display = .ok shown ∧
      SuppliedBy next behind ∧ ∀ fields, behind.LaidOut fields →
        supply.LaidOut ((amountLength * 8, Bits.ofBytes amount.toList) :: fields) := by
  simp only [deserializeTokenAmount, bind_eq_ok, pure_eq_ok, Prod.exists] at hread
  obtain ⟨needed, hneed, slice, bytes, hvalue, display', hset, hresult⟩ := hread
  obtain ⟨turned, hturn, hsupplied⟩ := h.of_needBits hneed
  obtain ⟨rest, hbits, hlength, hnext⟩ := hsupplied.current.front_of_deserializeValue hvalue
  obtain ⟨amount, rfl⟩ := exists_bytes (show _ = 16 from hlength)
  obtain ⟨rfl, rfl⟩ := Prod.mk.inj hresult
  exact ⟨amount, _, hset, hsupplied.advance hnext, fun fields hfields =>
    ⟨turned, rest, hturn, hbits, hfields⟩⟩

/-- The arguments, once the function id was read. -/
theorem TokenCall.decodes_arguments {call : TokenCall} (h : SuppliedBy source supply)
    (hlaid : supply.LaidOut call.arguments.fields)
    (hshown : call.arguments.shown sdk locals ctx display = .ok (flow, shown)) :
    ∃ final, deserializeTokenFunction sdk locals source call.id.toNat ctx display =
      .ok (flow, final, shown) := by
  unfold deserializeTokenFunction
  rw [call.id_function]
  generalize call.arguments = arguments at hlaid hshown
  cases arguments with
  | transfer amount recipient =>
    obtain ⟨display', hset, hresult⟩ := bind_eq_ok.mp hshown
    obtain ⟨rfl, rfl⟩ := Prod.mk.inj (pure_eq_ok.mp hresult)
    obtain ⟨s1, behind, h1, hs1, turned, rest, hturn, hbits, -⟩ := h.tokenAmount hlaid hset
    obtain ⟨needed, hneeded, hsupplied⟩ := hs1.needBits_of_turn hturn
    obtain ⟨next, hread, hnext⟩ :=
      (hbits ▸ hsupplied.current).addressField 0 locals.tokenAddress.toList
    refine ⟨needed.advance next, ?_⟩
    simp only [TokenArguments.function, h1, ok_bind, hneeded, hread]
    rfl
  | burn amount =>
    obtain ⟨display', hset, hresult⟩ := bind_eq_ok.mp hshown
    obtain ⟨rfl, rfl⟩ := Prod.mk.inj (pure_eq_ok.mp hresult)
    obtain ⟨s1, behind, h1, -, -⟩ := h.tokenAmount hlaid hset
    refine ⟨s1, ?_⟩
    simp only [TokenArguments.function, h1, ok_bind]
    rfl
  | other =>
    obtain ⟨rfl, rfl⟩ := Prod.mk.inj (Except.ok.inj hshown)
    exact ⟨source, rfl⟩

theorem SuppliedBy.of_deserializeTokenFunction (h : SuppliedBy source supply)
    (hread : deserializeTokenFunction sdk locals source functionId ctx display =
      .ok (flow, final, shown)) :
    ∃ arguments : TokenArguments, TokenFunction.ofId functionId = arguments.function ∧
      supply.LaidOut arguments.fields ∧
      arguments.shown sdk locals ctx display = .ok (flow, shown) := by
  unfold deserializeTokenFunction at hread
  cases hid : TokenFunction.ofId functionId with
  | none =>
    rw [hid] at hread
    obtain ⟨rfl, hrest⟩ := Prod.mk.inj (pure_eq_ok.mp hread)
    obtain ⟨-, rfl⟩ := Prod.mk.inj hrest
    exact ⟨.other, rfl, trivial, rfl⟩
  | some function =>
    rw [hid] at hread
    cases function with
    | transfer =>
      simp only [bind_eq_ok, pure_eq_ok, Prod.exists] at hread
      obtain ⟨s1, display', h1, needed, hneed, slice, wc, address, h2, hresult⟩ := hread
      obtain ⟨amount, behind, hset, hs1, hlaid⟩ := h.of_tokenAmount h1
      obtain ⟨turned, hturn, hsupplied⟩ := hs1.of_needBits hneed
      obtain ⟨recipient, rest, hbits, hrecipient, -⟩ := hsupplied.current.of_deserializeAddress h2
      obtain ⟨rfl, hrest⟩ := Prod.mk.inj hresult
      obtain ⟨-, rfl⟩ := Prod.mk.inj hrest
      refine ⟨.transfer amount recipient, rfl, ?_, ?_⟩
      · exact hlaid _ ⟨turned, rest, hturn, hbits, trivial⟩
      · refine bind_eq_ok.mpr ⟨_, hset, ?_⟩
        rw [hrecipient]
        rfl
    | burn =>
      simp only [bind_eq_ok, pure_eq_ok, Prod.exists] at hread
      obtain ⟨s1, display', h1, hresult⟩ := hread
      obtain ⟨amount, behind, hset, -, hlaid⟩ := h.of_tokenAmount h1
      obtain ⟨rfl, hrest⟩ := Prod.mk.inj hresult
      obtain ⟨-, rfl⟩ := Prod.mk.inj hrest
      exact ⟨.burn amount, rfl, hlaid _ trivial, bind_eq_ok.mpr ⟨_, hset, rfl⟩⟩

/-- The bits that the cell behind has, as the decoder counts them. -/
theorem SuppliedBy.deserializeTokenBody_eq (h : SuppliedBy source supply)
    (hfront : source.onRef = false) (sdk : Sdk) (locals : Locals) (ctx : SignTransactionContext)
    (display : Display) :
    (supply.Empty ∧ deserializeTokenBody sdk locals source ctx display =
      .ok (.transfer, source, display)) ∨
    ∃ turned next, ¬ supply.Empty ∧ supply.turn 32 = some turned ∧ SuppliedBy next turned ∧
      deserializeTokenBody sdk locals source ctx display = (do
        let (functionId, slice) ← next.current.getNextInt 32
        deserializeTokenFunction sdk locals (next.advance slice) functionId ctx display) := by
  cases h with
  | @only slice bits hbits =>
    by_cases hshort : bits.length < 32
    · left
      refine ⟨hshort, ?_⟩
      simp only [deserializeTokenBody, hbits.remainingBits]
      rw [if_pos ⟨hshort, by decide⟩]
      rfl
    · right
      refine ⟨.only bits, ⟨slice, none, false⟩, hshort, if_neg hshort, .only hbits, ?_⟩
      simp only [deserializeTokenBody, hbits.remainingBits]
      rw [if_neg (fun hboth => hshort hboth.1), decide_eq_false hshort]
  | @front slice ref bits behind hbits hbehind =>
    by_cases hshort : bits.length < 32 ∧ behind.length < 32
    · left
      refine ⟨hshort, ?_⟩
      simp only [deserializeTokenBody, hbits.remainingBits, hbehind.remainingBits]
      rw [if_pos hshort]
      rfl
    · right
      by_cases hfew : bits.length < 32
      · refine ⟨.back behind, ⟨slice, some ref, true⟩, hshort, congrArg some (if_pos hfew),
          .back hbehind, ?_⟩
        simp only [deserializeTokenBody, hbits.remainingBits, hbehind.remainingBits]
        rw [if_neg hshort, decide_eq_true hfew]
      · refine ⟨.front bits behind, ⟨slice, some ref, false⟩, hshort, congrArg some (if_neg hfew),
          .front hbits hbehind, ?_⟩
        simp only [deserializeTokenBody, hbits.remainingBits, hbehind.remainingBits]
        rw [if_neg hshort, decide_eq_false hfew]
  | back _ => cases hfront

theorem Supply.LaidOut.not_empty {call : TokenCall} (h : supply.LaidOut call.fields) :
    ¬ supply.Empty := by
  obtain ⟨turned, rest, hturn, hbits, -⟩ := h
  have hlength : 32 ≤ turned.bits.length := by rw [hbits]; simp
  cases supply with
  | only bits =>
    intro hshort
    rw [Supply.turn, if_pos (show bits.length < 32 from hshort)] at hturn
    cases hturn
  | front bits behind =>
    intro hshort
    rw [Supply.turn, if_pos hshort.1] at hturn
    obtain rfl := Option.some.inj hturn
    exact absurd hshort.2 (Nat.not_lt.mpr hlength)
  | back bits => exact id

theorem MessageBody.decodes {before : Flow} {body : MessageBody} (h : SuppliedBy source supply)
    (hfront : source.onRef = false) (hcarried : body.CarriedBy supply)
    (hshown : body.shown sdk locals ctx before display = .ok (flow, shown)) :
    ∃ final, deserializeTokenBody sdk locals source ctx display = .ok (flow, final, shown) := by
  obtain ⟨hempty, hread⟩ | ⟨turned, next, hlong, hturn, hsupplied, hread⟩ :=
    h.deserializeTokenBody_eq hfront sdk locals ctx display
  · cases body with
    | absent => cases hcarried
    | short =>
      obtain ⟨rfl, rfl⟩ := Prod.mk.inj (Except.ok.inj hshown)
      exact ⟨source, hread⟩
    | call made => exact absurd hempty hcarried.not_empty
  · cases body with
    | absent => cases hcarried
    | short => exact absurd hcarried hlong
    | call made =>
      obtain ⟨turned', rest, hturn', hbits, harguments⟩ := hcarried
      rw [hturn] at hturn'
      obtain rfl := Option.some.inj hturn'
      obtain ⟨s1, h1, hs1⟩ := (hbits ▸ hsupplied.current).getNextInt (Bits.length_ofNat _ _) (by decide)
      rw [Bits.number_ofNat, Nat.mod_eq_of_lt made.id.toNat_lt] at h1
      rw [hread, h1, ok_bind]
      exact TokenCall.decodes_arguments (hsupplied.advance hs1) harguments hshown

theorem SuppliedBy.of_deserializeTokenBody (h : SuppliedBy source supply)
    (hfront : source.onRef = false)
    (hread : deserializeTokenBody sdk locals source ctx display = .ok (flow, final, shown)) :
    ∃ body : MessageBody, body.CarriedBy supply ∧
      ∀ before, body.shown sdk locals ctx before display = .ok (flow, shown) := by
  obtain ⟨hempty, hread'⟩ | ⟨turned, next, -, hturn, hsupplied, hread'⟩ :=
    h.deserializeTokenBody_eq hfront sdk locals ctx display
  · rw [hread'] at hread
    obtain ⟨rfl, hrest⟩ := Prod.mk.inj (Except.ok.inj hread)
    obtain ⟨-, rfl⟩ := Prod.mk.inj hrest
    exact ⟨.short, hempty, fun _ => rfl⟩
  · rw [hread'] at hread
    obtain ⟨⟨functionId, slice⟩, hid, hread⟩ := bind_eq_ok.mp hread
    obtain ⟨rest, hbits, hlt, hnext⟩ := hsupplied.current.front_of_getNextInt hid (by decide)
    obtain ⟨arguments, hfunction, hlaid, hshown⟩ :=
      (hsupplied.advance hnext).of_deserializeTokenFunction hread
    have hid : (UInt32.ofNat functionId).toNat = functionId := UInt32.toNat_ofNat_of_lt' hlt
    refine ⟨.call ⟨UInt32.ofNat functionId, arguments, hid.symm ▸ hfunction⟩, ?_, fun _ => hshown⟩
    refine ⟨turned, rest, hturn, ?_, hlaid⟩
    rw [hid]
    exact hbits

end

/-! A supply lays out one body. -/

/-- A supply has one field in front. -/
theorem Supply.LaidOut.head {α : Type} {code : α → List Bool} (hcode : SelfDelimiting code)
    {first second : α} {supply : Supply} {count : Nat} {fields fields' : List (Nat × List Bool)}
    (h : supply.LaidOut ((count, code first) :: fields))
    (h' : supply.LaidOut ((count, code second) :: fields')) :
    first = second ∧ ∃ next : Supply, next.LaidOut fields ∧ next.LaidOut fields' := by
  obtain ⟨turned, rest, hturn, hbits, hfields⟩ := h
  obtain ⟨turned', rest', hturn', hbits', hfields'⟩ := h'
  rw [hturn] at hturn'
  obtain rfl := Option.some.inj hturn'
  obtain ⟨heq, rfl⟩ := hcode.rest_eq (hbits.symm.trans hbits')
  exact ⟨heq, _, hfields, hfields'⟩

theorem TokenArguments.eq_of_laidOut {supply : Supply} {first second : TokenArguments}
    (hfunction : first.function = second.function) (h : supply.LaidOut first.fields)
    (h' : supply.LaidOut second.fields) : first = second := by
  cases first with
  | transfer amount recipient =>
    cases second with
    | transfer amount' recipient' =>
      obtain ⟨rfl, next, hnext, hnext'⟩ := h.head (bytes_selfDelimiting 16) h'
      obtain ⟨rfl, -⟩ := hnext.head AddressField.selfDelimiting hnext'
      rfl
    | _ => cases hfunction
  | burn amount =>
    cases second with
    | burn amount' =>
      obtain ⟨rfl, -⟩ := h.head (bytes_selfDelimiting 16) h'
      rfl
    | _ => cases hfunction
  | other =>
    cases second with
    | other => rfl
    | _ => cases hfunction

theorem MessageBody.CarriedBy.unique {supply : Supply} {first second : MessageBody}
    (h : first.CarriedBy supply) (h' : second.CarriedBy supply) : first = second := by
  cases first with
  | absent => cases h
  | short =>
    cases second with
    | absent => cases h'
    | short => rfl
    | call made => exact absurd h h'.not_empty
  | call made =>
    cases second with
    | absent => cases h'
    | short => exact absurd h' h.not_empty
    | call made' =>
      obtain ⟨id, arguments, hid⟩ := made
      obtain ⟨id', arguments', hid'⟩ := made'
      obtain ⟨rfl, next, hnext, hnext'⟩ := h.head word_selfDelimiting h'
      obtain rfl := TokenArguments.eq_of_laidOut (hid.symm.trans hid') hnext hnext'
      rfl

end EverscaleLedger.Properties
