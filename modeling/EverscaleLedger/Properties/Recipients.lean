import EverscaleLedger.Properties.Coverage
import EverscaleLedger.Properties.InBounds
import EverscaleLedger.Properties.MessageAddress

/-! The recipients that `prepare_to_sign` decodes and passes to `set_dst_address`:
where in the message they are read, and when an address of the message is there. -/
namespace EverscaleLedger.Properties

open Library Source Slice

/-- A call of `deserialize_address` whose outputs go to `set_dst_address`, with what
the output buffer holds before. -/
structure RecipientCall where
  slice : SliceData
  buffer : List UInt8

def RecipientCall.run (call : RecipientCall) : Outcome (SliceData × UInt8 × List UInt8) :=
  deserializeAddress call.slice 0 call.buffer

/-! The decoders up to their recipients. -/

def headerRecipient (locals : Locals) (slice : SliceData) : Outcome RecipientCall := do
  let (intMsg, slice) ← slice.getNextBit
  validate (intMsg = 0) .invalidMessage
  let (_ihrDisabled, slice) ← slice.getNextBit
  let (_bounce, slice) ← slice.getNextBit
  let (_bounced, slice) ← slice.getNextBit
  let (slice, _, _) ← deserializeAddress slice 0 locals.srcAddr.toList
  pure ⟨slice, locals.dstAddress.toList⟩

def tokenFunctionRecipients (locals : Locals) (source : TokenSource) (functionId : Nat)
    (ctx : SignTransactionContext) (display : Display) : Outcome (List RecipientCall) :=
  match TokenFunction.ofId functionId with
  | some .transfer => do
      let (source, _) ← deserializeTokenAmount source ctx display
      let source ← source.needBits (addressLength * 8)
      pure [⟨source.current, locals.tokenAddress.toList⟩]
  | some .burn | none => pure []

def tokenRecipients (locals : Locals) (source : TokenSource) (ctx : SignTransactionContext)
    (display : Display) : Outcome (List RecipientCall) := do
  let refBits := match source.refSlice with
    | some refSlice => refSlice.remainingBits
    | none => 0
  if source.slice.remainingBits < 32 ∧ refBits < 32 then pure []
  else do
    let source := { source with onRef := decide (source.slice.remainingBits < 32) }
    let (functionId, slice) ← source.current.getNextInt 32
    tokenFunctionRecipients locals (source.advance slice) functionId ctx display

def paramsRecipients (locals : Locals) (slice : SliceData) (functionId : Nat) :
    List RecipientCall :=
  match ContractFunction.ofId functionId with
  | some .sendTransaction | some .submitTransaction => [⟨slice, locals.dstAddress.toList⟩]
  | some .deployTransaction | some .confirmTransaction | none => []

def giftBodyRecipients (locals : Locals) (bc : BocContext) (giftCell : Cell)
    (ctx : SignTransactionContext) (display : Display) : Outcome (List RecipientCall) := do
  let (_, giftRefsCount) ← giftCell.getRefs
  if giftRefsCount ≠ 0 then do
    let bodyCell ← cellAt bc (giftCellIndex + 1)
    let bodySlice ← SliceData.fromCell bodyCell
    if bodySlice.isEmpty then pure []
    else tokenRecipients locals ⟨bodySlice, none, false⟩ ctx display
  else pure []

def walletV3Recipients (sdk : Sdk) (locals : Locals) (bc : BocContext) (rootSlice : SliceData)
    (ctx : SignTransactionContext) : Outcome (List RecipientCall) := do
  let (flags, _) ← deserializeWalletV3 rootSlice
  let giftCell ← cellAt bc giftCellIndex
  let giftSlice ← SliceData.fromCell giftCell
  let recipient ← headerRecipient locals giftSlice
  let (giftSlice, display) ←
    deserializeIntMessageHeader sdk locals giftSlice flags ctx Display.untouched
  let (_, giftSlice) ← giftSlice.getNextBit
  let (_, giftRefsCount) ← giftCell.getRefs
  let (bodyBit, giftSlice) ← giftSlice.getNextBit
  if bodyBit ≠ 0 ∨ giftRefsCount ≠ 0 then do
    let refCell ← cellAt bc (giftCellIndex + 1)
    let refSlice ← SliceData.fromCell refCell
    let calls ← tokenRecipients locals ⟨giftSlice, some refSlice, false⟩ ctx display
    pure (recipient :: calls)
  else pure [recipient]

def contractRecipients (sdk : Sdk) (locals : Locals) (bc : BocContext) (rootCell : Cell)
    (rootSlice : SliceData) (wc : UInt8) (address : List UInt8)
    (ctx : SignTransactionContext) : Outcome (List RecipientCall) := do
  let (functionId, rootSlice) ← deserializeContractHeader rootSlice
  let inSameCell : Bool := ContractFunction.ofId functionId = some .confirmTransaction
  let giftCell := if inSameCell then rootCell else bc.cells giftCellIndex
  let giftSlice ← (if inSameCell then pure rootSlice else SliceData.fromCell giftCell)
  let (_, _, display) ← deserializeMultisigParams sdk locals giftSlice functionId
    wc address ctx Display.untouched
  let calls ← giftBodyRecipients locals bc giftCell ctx display
  pure (paramsRecipients locals giftSlice functionId ++ calls)

def prefixedContractRecipients (sdk : Sdk) (locals : Locals) (bc : BocContext)
    (rootSlice : SliceData) (wc : UInt8) (address : List UInt8)
    (ctx : SignTransactionContext) : Outcome (List RecipientCall) := do
  let (functionId, _) ← deserializeContractHeader rootSlice
  let giftCell ← cellAt bc giftCellIndex
  let giftSlice ← SliceData.fromCell giftCell
  let (_, _, display) ← deserializeMultisigParams sdk locals giftSlice functionId
    wc address ctx Display.untouched
  let calls ← giftBodyRecipients locals bc giftCell ctx display
  pure (paramsRecipients locals giftSlice functionId ++ calls)

/-- The recipients that the decoders of a wallet family read, in their order. -/
def recipientsFor (sdk : Sdk) (locals : Locals) (request : SigningRequest) (parsed : BocContext)
    (rootSlice : SliceData) : WalletFamily → Outcome (List RecipientCall)
  | .walletV3 => walletV3Recipients sdk locals parsed rootSlice request.ctx
  | .contract => contractRecipients sdk locals parsed (parsed.cells rootCellIndex) rootSlice
      request.wc request.address request.ctx
  | .prefixedContract => prefixedContractRecipients sdk locals parsed rootSlice request.wc
      request.address request.ctx

/-! What they are in a run that succeeds. -/

/-- `set_dst_address` was called for these recipients, and for the last one last. -/
structure Traced (sdk : Sdk) (calls : List RecipientCall) (display : Display) : Prop where
  sound : ∀ call ∈ calls, Sound call.slice
  reads : ∀ call ∈ calls, ∃ result, call.run = .ok result
  last : ∀ call, calls.getLast? = some call → ∃ next wc account, call.run = .ok (next, wc, account) ∧
    display.addressStr = some (workchainText wc ++ sdk.formatHex account ++ [0])

theorem Traced.nil (sdk : Sdk) (display : Display) : Traced sdk [] display := ⟨nofun, nofun, nofun⟩

theorem Traced.single {sdk : Sdk} {call : RecipientCall} {next : SliceData} {wc : UInt8}
    {account : List UInt8} {display : Display} (h : Sound call.slice)
    (hrun : call.run = .ok (next, wc, account))
    (hshown : display.addressStr = some (workchainText wc ++ sdk.formatHex account ++ [0])) :
    Traced sdk [call] display := by
  refine ⟨fun other hother => ?_, fun other hother => ?_, fun other hother => ?_⟩
  · exact List.mem_singleton.mp hother ▸ h
  · exact List.mem_singleton.mp hother ▸ ⟨_, hrun⟩
  · rw [List.getLast?_singleton, Option.some.injEq] at hother
    exact hother ▸ ⟨next, wc, account, hrun, hshown⟩

theorem Traced.append {sdk : Sdk} {first second : List RecipientCall} {before after : Display}
    (h : Traced sdk first before) (h' : Traced sdk second after)
    (hnone : second = [] → after.addressStr = before.addressStr) :
    Traced sdk (first ++ second) after := by
  refine ⟨fun call hcall => ?_, fun call hcall => ?_, fun call hcall => ?_⟩
  · exact (List.mem_append.mp hcall).elim (h.sound call) (h'.sound call)
  · exact (List.mem_append.mp hcall).elim (h.reads call) (h'.reads call)
  · rw [List.getLast?_append] at hcall
    cases hlast : second.getLast? with
    | some other =>
      rw [hlast, Option.some_or, Option.some.injEq] at hcall
      exact hcall ▸ h'.last other hlast
    | none =>
      rw [hlast, Option.none_or] at hcall
      rw [hnone (List.getLast?_eq_none_iff.mp hlast)]
      exact h.last call hcall

section

variable {sdk : Sdk} {locals : Locals} {ctx : SignTransactionContext}

theorem headerRecipient_traced {slice next : SliceData} {flags : Nat} {display result : Display}
    (hs : Sound slice)
    (h : deserializeIntMessageHeader sdk locals slice flags ctx display = .ok (next, result)) :
    ∃ call, headerRecipient locals slice = .ok call ∧ Traced sdk [call] result := by
  simp only [deserializeIntMessageHeader, bind_eq_ok, validate_eq_ok, pure_eq_ok,
    Prod.mk.injEq] at h
  obtain ⟨⟨_, s1⟩, h1, _, hkind, ⟨_, s2⟩, h2, ⟨_, s3⟩, h3, ⟨_, s4⟩, h4, ⟨s5, wc5, address5⟩, h5,
    ⟨s6, wc, address⟩, h6, ⟨amountBytes, s7⟩, -, _, -, ⟨s8, amount⟩, -, shown, h9, ⟨_, s9⟩, -,
    ⟨_, s10⟩, -, _, -, ⟨_, s11⟩, -, _, -, ⟨_, s12⟩, -, ⟨_, s13⟩, -, -, rfl⟩ := h
  have hs4 : Sound s4 := by
    obtain ⟨rfl, -⟩ := getNextBit_ok h1
    obtain ⟨rfl, -⟩ := getNextBit_ok h2
    obtain ⟨rfl, -⟩ := getNextBit_ok h3
    obtain ⟨rfl, -⟩ := getNextBit_ok h4
    exact hs.moved _
  have hs5 : Sound s5 := deserializeAddress_ok h5 ▸ hs4.moved _
  obtain ⟨-, haddress, -⟩ := setAmount_ok h9
  refine ⟨⟨s5, locals.dstAddress.toList⟩, ?_, Traced.single hs5 h6 haddress⟩
  simp only [headerRecipient, bind_eq_ok, validate_eq_ok, pure_eq_ok]
  exact ⟨_, h1, (), hkind, _, h2, _, h3, _, h4, _, h5, rfl⟩

/-- What a decoder of a token body has traced: nothing, or a new recipient. -/
def TokenTraced (sdk : Sdk) (recipients : Outcome (List RecipientCall)) (before after : Display) :
    Prop :=
  ∃ calls, recipients = .ok calls ∧ Traced sdk calls after ∧
    (calls = [] → after.addressStr = before.addressStr)

theorem tokenFunctionRecipients_traced {source final : TokenSource} {functionId : Nat}
    {display result : Display} {flow : Flow} (hs : SourceSound source)
    (h : deserializeTokenFunction sdk locals source functionId ctx display =
      .ok (flow, final, result)) :
    TokenTraced sdk (tokenFunctionRecipients locals source functionId ctx display) display result := by
  unfold deserializeTokenFunction at h
  unfold TokenTraced tokenFunctionRecipients
  cases hfunction : TokenFunction.ofId functionId with
  | none =>
    simp only [hfunction, pure_eq_ok, Prod.mk.injEq] at h
    obtain ⟨-, -, rfl⟩ := h
    exact ⟨[], rfl, Traced.nil _ _, fun _ => rfl⟩
  | some function =>
    cases function with
    | transfer =>
      simp only [hfunction, bind_eq_ok, pure_eq_ok, Prod.mk.injEq] at h
      obtain ⟨⟨amountSource, shown⟩, hamount, address, hneed, ⟨slice, wc, bytes⟩, haddress, -, -,
        rfl⟩ := h
      have hsound : Sound address.current := by
        obtain ⟨-, -, needed, hneeded, rfl⟩ := deserializeTokenAmount_ok hamount
        have hsource := (needBits_inBounds hs _).2 needed hneeded
        have hmoved : SourceSound (moved needed (amountLength * 8)) :=
          hsource.advance (hsource.current.moved _)
        exact ((needBits_inBounds hmoved _).2 address hneed).current
      refine ⟨[⟨address.current, locals.tokenAddress.toList⟩], ?_,
        Traced.single hsound haddress rfl, nofun⟩
      simp only [bind_eq_ok, pure_eq_ok]
      exact ⟨_, hamount, _, hneed, rfl⟩
    | burn =>
      simp only [hfunction, bind_eq_ok, pure_eq_ok, Prod.mk.injEq] at h
      obtain ⟨⟨amountSource, shown⟩, hamount, -, -, rfl⟩ := h
      exact ⟨[], rfl, Traced.nil _ _, fun _ => (deserializeTokenAmount_ok hamount).2.1⟩

/-- The bits that the referenced slice has left. -/
def refBits (source : TokenSource) : Nat :=
  match source.refSlice with
  | some refSlice => refSlice.remainingBits
  | none => 0

theorem deserializeTokenBody_empty {source : TokenSource} {display : Display}
    (h : source.slice.remainingBits < 32 ∧ refBits source < 32) :
    deserializeTokenBody sdk locals source ctx display = .ok (.transfer, source, display) :=
  if_pos h

theorem deserializeTokenBody_read {source : TokenSource} {display : Display}
    (h : ¬ (source.slice.remainingBits < 32 ∧ refBits source < 32)) :
    deserializeTokenBody sdk locals source ctx display = (do
      let source := { source with onRef := decide (source.slice.remainingBits < 32) }
      let (functionId, slice) ← source.current.getNextInt 32
      deserializeTokenFunction sdk locals (source.advance slice) functionId ctx display) :=
  if_neg h

theorem tokenRecipients_traced {source final : TokenSource} {display result : Display}
    {flow : Flow} (hs : SourceSound source)
    (h : deserializeTokenBody sdk locals source ctx display = .ok (flow, final, result)) :
    TokenTraced sdk (tokenRecipients locals source ctx display) display result := by
  by_cases hempty : source.slice.remainingBits < 32 ∧ refBits source < 32
  · rw [deserializeTokenBody_empty hempty] at h
    simp only [Except.ok.injEq, Prod.mk.injEq] at h
    obtain ⟨-, -, rfl⟩ := h
    exact ⟨[], if_pos hempty, Traced.nil _ _, fun _ => rfl⟩
  · rw [deserializeTokenBody_read hempty, bind_eq_ok] at h
    obtain ⟨⟨functionId, slice⟩, hid, h⟩ := h
    have hstart : SourceSound { source with onRef := decide (source.slice.remainingBits < 32) } := hs
    have hslice : Sound slice := (getNextInt_ok hid).1 ▸ hstart.current.moved _
    obtain ⟨calls, hcalls, htraced⟩ := tokenFunctionRecipients_traced (hstart.advance hslice) h
    refine ⟨calls, (if_neg hempty).trans ?_, htraced⟩
    rw [hid, ok_bind]
    exact hcalls

theorem giftBodyRecipients_traced {parsed : BocContext} {cells : List RawCell} {giftCell : Cell}
    {before after : Decoded} (hparsed : Parsed parsed cells)
    (h : decodeGiftBody sdk locals parsed giftCell ctx before = .ok after) :
    TokenTraced sdk (giftBodyRecipients locals parsed giftCell ctx before.display) before.display
      after.display := by
  simp only [decodeGiftBody, bind_eq_ok] at h
  obtain ⟨⟨_, giftRefsCount⟩, hrefs, h⟩ := h
  unfold giftBodyRecipients
  rw [hrefs, ok_bind]
  simp only at h ⊢
  split at h
  next hsome =>
    simp only [bind_eq_ok] at h
    obtain ⟨bodyCell, hbodyCell, bodySlice, hbodySlice, h⟩ := h
    obtain ⟨body, rest, -, hbody⟩ := cellAt_ok hparsed hbodyCell
    rw [if_pos hsome, hbodyCell, ok_bind, hbodySlice, ok_bind]
    have hsound : Sound bodySlice :=
      Except.ok.inj (hbody.fromCell.symm.trans hbodySlice) ▸ body.slice_sound
    split at h
    next hempty =>
      rw [pure_eq_ok] at h
      subst h
      rw [if_pos hempty]
      exact ⟨[], rfl, Traced.nil _ _, fun _ => rfl⟩
    next hempty =>
      simp only [bind_eq_ok, pure_eq_ok] at h
      obtain ⟨⟨flow, source, display⟩, htoken, rfl⟩ := h
      rw [if_neg hempty]
      exact tokenRecipients_traced ⟨hsound, fun _ href => by cases href⟩ htoken
  next hnone =>
    rw [pure_eq_ok] at h
    subst h
    rw [if_neg hnone]
    exact ⟨[], rfl, Traced.nil _ _, fun _ => rfl⟩

theorem deserializeRecipient_traced {slice next : SliceData} {amount : List UInt8}
    {display result : Display} (hs : Sound slice)
    (h : deserializeRecipient sdk locals slice display = .ok (next, amount, result)) :
    Traced sdk [⟨slice, locals.dstAddress.toList⟩] result := by
  simp only [deserializeRecipient, bind_eq_ok, pure_eq_ok, Prod.mk.injEq] at h
  obtain ⟨⟨s1, wc, address⟩, h1, ⟨s2, value⟩, -, ⟨bounce, s3⟩, -, -, -, rfl⟩ := h
  exact Traced.single hs h1 rfl

theorem paramsRecipients_traced {slice next : SliceData} {functionId : Nat} {wc : UInt8}
    {address : List UInt8} {display result : Display} {flow : Flow} (hs : Sound slice)
    (h : deserializeMultisigParams sdk locals slice functionId wc address ctx display =
      .ok (flow, next, result)) :
    Traced sdk (paramsRecipients locals slice functionId) result := by
  unfold deserializeMultisigParams at h
  unfold paramsRecipients
  cases hfunction : ContractFunction.ofId functionId with
  | none => exact Traced.nil _ _
  | some function =>
    cases function with
    | deployTransaction => exact Traced.nil _ _
    | confirmTransaction => exact Traced.nil _ _
    | sendTransaction =>
      simp only [hfunction, bind_eq_ok, pure_eq_ok, Prod.mk.injEq] at h
      obtain ⟨⟨s1, amount, d1⟩, hrecipient, ⟨flags, s2⟩, -, d2, hamount, -, -, rfl⟩ := h
      obtain ⟨-, hsame, -⟩ := setAmount_ok hamount
      have htraced := deserializeRecipient_traced hs hrecipient
      exact ⟨htraced.sound, htraced.reads, hsame ▸ htraced.last⟩
    | submitTransaction =>
      simp only [hfunction, bind_eq_ok, pure_eq_ok, Prod.mk.injEq] at h
      obtain ⟨⟨s1, amount, d1⟩, hrecipient, ⟨allBalance, s2⟩, -, d2, hamount, -, -, rfl⟩ := h
      obtain ⟨-, hsame, -⟩ := setAmount_ok hamount
      have htraced := deserializeRecipient_traced hs hrecipient
      exact ⟨htraced.sound, htraced.reads, hsame ▸ htraced.last⟩

/-! The wallet families. -/

section

variable {parsed : BocContext} {cells : List RawCell} {root : RawCell} {d : Decoded}
  (hparsed : Parsed parsed cells)

include hparsed

theorem walletV3Recipients_traced
    (h : decodeWalletV3 sdk locals parsed root.slice ctx = .ok d) :
    ∃ calls, walletV3Recipients sdk locals parsed root.slice ctx = .ok calls ∧
      Traced sdk calls d.display := by
  simp only [decodeWalletV3, bind_eq_ok, validate_eq_ok] at h
  obtain ⟨⟨flags, _⟩, hroot, giftCell, hgift, giftSlice, hslice, ⟨s1, shown⟩, hheader,
    ⟨stateInit, s2⟩, hstate, _, _, ⟨giftRefs, giftRefsCount⟩, hrefs, ⟨bodyBit, s3⟩, hbody, h⟩ := h
  obtain ⟨gift, rest, -, hholds⟩ := cellAt_ok hparsed hgift
  have hsound : Sound giftSlice :=
    Except.ok.inj (hholds.fromCell.symm.trans hslice) ▸ gift.slice_sound
  obtain ⟨recipient, hrecipient, htraced⟩ := headerRecipient_traced hsound hheader
  have hs3 : Sound s3 := by
    obtain ⟨rfl, -⟩ := deserializeIntMessageHeader_ok hheader
    obtain ⟨rfl, -⟩ := getNextBit_ok hstate
    obtain ⟨rfl, -⟩ := getNextBit_ok hbody
    exact hsound.moved _
  unfold walletV3Recipients
  rw [hroot, ok_bind]
  simp only
  rw [hgift, ok_bind, hslice, ok_bind, hrecipient, ok_bind, hheader, ok_bind]
  simp only
  rw [hstate, ok_bind]
  simp only
  rw [hrefs, ok_bind]
  simp only
  rw [hbody, ok_bind]
  simp only at h ⊢
  split at h
  next hinside =>
    simp only [bind_eq_ok, pure_eq_ok] at h
    obtain ⟨refCell, hrefCell, refSlice, hrefSlice, ⟨flow, source, display⟩, htoken, rfl⟩ := h
    obtain ⟨body, bodyRest, -, hbodyHolds⟩ := cellAt_ok hparsed hrefCell
    have hrefSound : Sound refSlice :=
      Except.ok.inj (hbodyHolds.fromCell.symm.trans hrefSlice) ▸ body.slice_sound
    obtain ⟨calls, hcalls, htoken, hnone⟩ := @tokenRecipients_traced _ _ _
      ⟨s3, some refSlice, false⟩ source _ _ _
      ⟨hs3, fun _ heq => Option.some.inj heq ▸ hrefSound⟩ htoken
    rw [if_pos hinside, hrefCell, ok_bind, hrefSlice, ok_bind, hcalls, ok_bind]
    exact ⟨_, rfl, htraced.append htoken hnone⟩
  next hinside =>
    rw [pure_eq_ok] at h
    subst h
    rw [if_neg hinside]
    exact ⟨_, rfl, htraced⟩

theorem prefixedContractRecipients_traced {wc : UInt8} {address : List UInt8}
    (h : decodePrefixedContract sdk locals parsed root.slice wc address ctx = .ok d) :
    ∃ calls, prefixedContractRecipients sdk locals parsed root.slice wc address ctx = .ok calls ∧
      Traced sdk calls d.display := by
  simp only [decodePrefixedContract, bind_eq_ok] at h
  obtain ⟨⟨functionId, _⟩, hheader, giftCell, hgiftCell, giftSlice, hslice,
    ⟨flow, next, display⟩, hparams, h⟩ := h
  obtain ⟨gift, rest, -, hholds⟩ := cellAt_ok hparsed hgiftCell
  have hsound : Sound giftSlice :=
    Except.ok.inj (hholds.fromCell.symm.trans hslice) ▸ gift.slice_sound
  obtain ⟨calls, hcalls, htoken, hnone⟩ := giftBodyRecipients_traced hparsed h
  unfold prefixedContractRecipients
  rw [hheader, ok_bind]
  simp only
  rw [hgiftCell, ok_bind, hslice, ok_bind, hparams, ok_bind]
  simp only
  rw [hcalls, ok_bind]
  exact ⟨_, rfl, (paramsRecipients_traced hsound hparams).append htoken hnone⟩

theorem contractRecipients_traced {wc : UInt8} {address : List UInt8}
    (h : decodeContract sdk locals parsed (parsed.cells rootCellIndex) root.slice wc address ctx =
      .ok d) :
    ∃ calls, contractRecipients sdk locals parsed (parsed.cells rootCellIndex) root.slice wc address
        ctx = .ok calls ∧ Traced sdk calls d.display := by
  simp only [decodeContract, bind_eq_ok, validate_eq_ok] at h
  obtain ⟨⟨functionId, rootSlice⟩, hheader, _, hcount, giftSlice, hslice,
    ⟨flow, next, display⟩, hparams, h⟩ := h
  obtain ⟨calls, hcalls, htoken, hnone⟩ := giftBodyRecipients_traced hparsed h
  have hsound : Sound giftSlice := by
    have hrootSlice := ((deserializeContractHeader_inBounds root.slice_sound).2 _ hheader)
    cases hsame : decide (ContractFunction.ofId functionId = some .confirmTransaction) with
    | true =>
      simp only [hsame] at hslice
      exact Except.ok.inj hslice ▸ hrootSlice
    | false =>
      simp only [hsame, Bool.false_eq_true, if_false, false_or] at hslice hcount
      rw [hparsed.count] at hcount
      obtain ⟨giftRest, hgift⟩ := hparsed.holds giftCellIndex _ (List.getElem?_eq_getElem hcount)
      exact Except.ok.inj (hgift.fromCell.symm.trans hslice) ▸ RawCell.slice_sound _
  unfold contractRecipients
  rw [hheader, ok_bind]
  simp only at hslice hparams hcalls ⊢
  rw [hslice, ok_bind, hparams, ok_bind]
  simp only
  rw [hcalls, ok_bind]
  exact ⟨_, rfl, (paramsRecipients_traced hsound hparams).append htoken hnone⟩

end

end

/-! Displayed addresses. -/

/-- The call reads an address of the message: its outputs are the workchain and the
account that the consumed bits name. -/
def RecipientCall.FromMessage (call : RecipientCall) : Prop :=
  ∃ next wc account, call.run = .ok (next, wc, account) ∧
    InternalAddress (consumed call.slice next) (some (wc, account))

/-- The tag at the position of the call is that of a plain address. -/
def RecipientCall.HasStdTag (call : RecipientCall) : Prop :=
  bitsAt call.slice call.slice.dataWindowStart 3 = stdTag

theorem RecipientCall.fromMessage_iff {call : RecipientCall} (hsound : Sound call.slice)
    (hreads : ∃ result, call.run = .ok result) : call.FromMessage ↔ call.HasStdTag := by
  obtain ⟨⟨next, wc, account⟩, hrun⟩ := hreads
  unfold FromMessage HasStdTag
  rw [← internalAddress_consumed_iff hsound hrun]
  constructor
  · rintro ⟨next', wc', account', hrun', haddress⟩
    rw [hrun] at hrun'
    simp only [Except.ok.injEq, Prod.mk.injEq] at hrun'
    obtain ⟨rfl, rfl, rfl⟩ := hrun'
    exact haddress
  · exact fun haddress => ⟨next, wc, account, hrun, haddress⟩

/-- The recipients of a run that succeeded. -/
theorem Prepares.recipients {sdk : Sdk} {locals : Locals} {request : SigningRequest}
    {src : ByteStream} {bc : BocContext} {reception : Reception src bc} {family : WalletFamily}
    {toHash : BocContext} {p : Prepared} {received : RawCell}
    (h : Prepares sdk locals request reception.parsed family received.slice toHash p) :
    ∃ calls, recipientsFor sdk locals request reception.parsed received.slice family = .ok calls ∧
      Traced sdk calls p.decoded.display := by
  have hparsed := reception.parsed_cells
  have hdecode := h.decode
  cases family with
  | walletV3 => exact walletV3Recipients_traced hparsed hdecode
  | contract => exact contractRecipients_traced hparsed hdecode
  | prefixedContract => exact prefixedContractRecipients_traced hparsed hdecode

/-- An address is read as what it says unless it has an anycast part; and in a run
that succeeds every recipient is an address of the message exactly when each has
the tag of a plain address. -/
theorem displayed_address_iff (sdk : Sdk) :
    (∀ (c : RawCell) (position : Nat) (next : SliceData) (wc wc' : UInt8)
        (address address' : List UInt8),
      deserializeAddress (movedTo c.slice position) wc address = .ok (next, wc', address') →
      (ReadsAddress (movedTo c.slice position) next (wc, address) (wc', address') ↔
        bitsAt c.slice position 3 ≠ anycastTag)) ∧
    ∀ (locals : Locals) (request : SigningRequest) (bc : BocContext) (src : ByteStream)
        (p : Prepared) (reception : Reception src bc) (family : WalletFamily) (root : RawCell),
      request.prepare sdk locals bc src = .ok p → request.family = some family →
      reception.cells[rootCellIndex]? = some root →
      ∃ calls, recipientsFor sdk locals request reception.parsed root.slice family = .ok calls ∧
        (∀ call, calls.getLast? = some call → ∃ next wc account,
          call.run = .ok (next, wc, account) ∧ p.decoded.display.addressStr =
            some (workchainText wc ++ sdk.formatHex account ++ [0])) ∧
        ((∀ call ∈ calls, call.FromMessage) ↔ ∀ call ∈ calls, call.HasStdTag) := by
  refine ⟨fun c position next wc wc' address address' hread =>
    readsAddress_iff (c.slice_sound.moved position) hread, ?_⟩
  intro locals request bc src p reception family root h hfamily hroot
  obtain ⟨received, _, toHash, hreceived, hprepares, -⟩ := reception.prepares hfamily h
  obtain rfl := Option.some.inj (hroot.symm.trans hreceived)
  obtain ⟨calls, hcalls, htraced⟩ := hprepares.recipients
  refine ⟨calls, hcalls, htraced.last, forall₂_congr fun call hcall => ?_⟩
  exact RecipientCall.fromMessage_iff (htraced.sound call hcall) (htraced.reads call hcall)

/-- The recipients of a transfer of this list of cells. -/
theorem exists_recipients {root : RawCell} {cells : List RawCell} {announced : UInt8}
    {property : List RecipientCall → Prop} (hadmitted : AdmittedFrom 0 announced.toNat (root :: cells))
    (hcount : (root :: cells).length = announced.toNat)
    (hbound : (root :: cells).length ≤ maxContractCellsCount)
    (hrun : Succeeds (do
      let (_, parsed) ← deserializeCellsTree (received (serialize plainHeader announced
        (root :: cells))) BocContext.zero
      recipientsFor testSdk zeroLocals (plainRequest 0) parsed root.slice .walletV3) property) :
    ∃ (reception : Reception (received (serialize plainHeader announced (root :: cells)))
        BocContext.zero) (calls : List RecipientCall),
      reception.cells[rootCellIndex]? = some root ∧
      recipientsFor testSdk zeroLocals (plainRequest 0) reception.parsed root.slice .walletV3 =
        .ok calls ∧ property calls := by
  obtain ⟨reception, -, -, hcells⟩ := exists_reception_of_cells plainHeader announced
    (root :: cells) BocContext.zero hadmitted ⟨nofun, Nat.le_of_eq hcount⟩ hbound
  obtain ⟨calls, hcalls, hproperty⟩ := hrun.exists
  obtain ⟨⟨next, parsed⟩, hparse, hdecoded⟩ := bind_eq_ok.mp hcalls
  obtain rfl := reception.parsed_unique hparse
  exact ⟨reception, calls, congrArg (fun cells => cells[rootCellIndex]?) hcells, hdecoded,
    hproperty⟩

theorem displayed_address_attachedTransfer :
    (∃ next wc address,
      deserializeAddress (movedTo (transferGift 0x00 [] no_refs).slice 6) 0 [] =
        .ok (next, wc, address) ∧
      ReadsAddress (movedTo (transferGift 0x00 [] no_refs).slice 6) next (0, []) (wc, address)) ∧
    ∃ (reception : Reception (received (serialize plainHeader 0x02 attachedTransfer)) BocContext.zero)
      (calls : List RecipientCall),
      recipientsFor testSdk zeroLocals (plainRequest 0) reception.parsed
        (transferRoot 0x01 [0x01] one_ref).slice .walletV3 = .ok calls ∧
      calls ≠ [] ∧ ∀ call ∈ calls, call.FromMessage := by
  have hread : Succeeds (deserializeAddress
      (movedTo (transferGift 0x00 [] no_refs).slice 6) 0 []) fun _ => True := by decide +kernel
  obtain ⟨⟨next, wc, address⟩, hread, -⟩ := hread.exists
  refine ⟨⟨next, wc, address, hread,
    ((displayed_address_iff testSdk).1 _ 6 next 0 wc [] address hread).mpr (by decide +kernel)⟩, ?_⟩
  obtain ⟨reception, calls, hroot, hcalls, hsome, htags⟩ := @exists_recipients
    (transferRoot 0x01 [0x01] one_ref) [transferGift 0x00 [] no_refs] 0x02
    (fun calls => calls ≠ [] ∧
      ∀ call ∈ calls, bitsAt call.slice call.slice.dataWindowStart 3 = stdTag)
    (by decide) (by decide) (by decide) (by decide +kernel)
  obtain ⟨p, hp, -⟩ := attachedTransfer_prepared.exists
  obtain ⟨calls', hcalls', -, hiff⟩ :=
    (displayed_address_iff testSdk).2 _ _ _ _ p reception .walletV3 _ hp (by decide) hroot
  obtain rfl := Except.ok.inj (hcalls.symm.trans hcalls')
  exact ⟨reception, calls, hcalls, hsome, hiff.mpr htags⟩

/-- An internal message whose recipient is the address without a name. -/
def namelessGift : RawCell where
  d1 := 0x00
  d2 := 0x1F
  data := [0x00, 0x10, 0x10, 0x00, 0x00, 0x00, 0x00, 0x00, 0x00, 0x00, 0x00, 0x00, 0x00, 0x00,
    0x00, 0x01]
  refs := []
  data_length := by decide
  refs_length := no_refs

def namelessTransfer : List RawCell := [transferRoot 0x01 [0x01] one_ref, namelessGift]

/-- An address whose anycast bit is set. -/
def anycastAddress : RawCell where
  d1 := 0x00
  d2 := 0x44
  data := 0xA0 :: List.replicate 33 0x00
  refs := []
  data_length := by decide
  refs_length := no_refs

theorem displayed_address_not_read :
    (∃ next wc address, deserializeAddress (movedTo anycastAddress.slice 0) 0 [] =
        .ok (next, wc, address) ∧
      ¬ ReadsAddress (movedTo anycastAddress.slice 0) next (0, []) (wc, address)) ∧
    ∃ (p : Prepared) (reception : Reception (received (serialize plainHeader 0x02 namelessTransfer))
        BocContext.zero) (calls : List RecipientCall),
      (plainRequest 0).prepare testSdk zeroLocals BocContext.zero
        (received (serialize plainHeader 0x02 namelessTransfer)) = .ok p ∧
      p.decoded.display.addressStr =
        some (workchainText 0 ++ testSdk.formatHex zeroLocals.dstAddress.toList ++ [0]) ∧
      recipientsFor testSdk zeroLocals (plainRequest 0) reception.parsed
        (transferRoot 0x01 [0x01] one_ref).slice .walletV3 = .ok calls ∧
      ∃ call ∈ calls, ¬ call.FromMessage := by
  constructor
  · have hread : Succeeds (deserializeAddress (movedTo anycastAddress.slice 0) 0 [])
        fun _ => True := by decide +kernel
    obtain ⟨⟨next, wc, address⟩, hread, -⟩ := hread.exists
    refine ⟨next, wc, address, hread, fun hreads => ?_⟩
    exact (readsAddress_iff (anycastAddress.slice_sound.moved 0) hread).mp hreads (by decide +kernel)
  · have hsuccess : Succeeds ((plainRequest 0).prepare testSdk zeroLocals BocContext.zero
        (received (serialize plainHeader 0x02 namelessTransfer))) fun p =>
          p.decoded.display.addressStr =
            some (workchainText 0 ++ testSdk.formatHex zeroLocals.dstAddress.toList ++ [0]) := by
      decide +kernel
    obtain ⟨p, hp, hshown⟩ := hsuccess.exists
    obtain ⟨reception, calls, hroot, hcalls, call, hcall, htag⟩ := @exists_recipients
      (transferRoot 0x01 [0x01] one_ref) [namelessGift] 0x02
      (fun calls => ∃ call ∈ calls, bitsAt call.slice call.slice.dataWindowStart 3 ≠ stdTag)
      (by decide) (by decide) (by decide) (by decide +kernel)
    refine ⟨p, reception, calls, hp, hshown, hcalls, call, hcall, ?_⟩
    obtain ⟨received, _, toHash, hreceived, hprepares, -⟩ :=
      reception.prepares (show _ = some WalletFamily.walletV3 from rfl) hp
    obtain rfl := Option.some.inj (hroot.symm.trans hreceived)
    obtain ⟨calls', hcalls', htraced⟩ := hprepares.recipients
    obtain rfl := Except.ok.inj (hcalls.symm.trans hcalls')
    rw [RecipientCall.fromMessage_iff (htraced.sound call hcall) (htraced.reads call hcall)]
    exact htag

end EverscaleLedger.Properties
