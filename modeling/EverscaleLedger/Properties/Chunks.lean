import EverscaleLedger.Properties.Sessions
import EverscaleLedger.Properties.StringSizes
import EverscaleLedger.Properties.TransactionRequest

/-! A signing request that is sent in chunks. However it is split, the device comes to
`prepare_to_sign` with the same contexts, and they hold the request. -/
namespace EverscaleLedger.Properties

open Library Source

/-! Payloads in pieces. -/

/-- The context with a payload behind the data in use. -/
def extended (dc : DataContext) (used : Nat) (payload : List UInt8) : DataContext :=
  (dc.write (DataContext.signTrContext.data.offset + used) payload).writeUint
    DataContext.signTrContext.dataOffset (used + payload.length)

theorem appendPayload_eq {payload : List UInt8} {dc : DataContext} {used : Nat}
    (hne : payload ≠ []) (hused : dc.readUint DataContext.signTrContext.dataOffset = used)
    (hroom : used + payload.length < maxDataLen) :
    appendPayload payload dc = .ok (extended dc used payload) := by
  unfold appendPayload
  rw [if_pos (List.length_pos_iff.mpr hne)]
  simp only [hused, validate_of_true hroom]
  rfl

theorem extended_offset (dc : DataContext) {used : Nat} {payload : List UInt8}
    (hroom : used + payload.length < maxDataLen) :
    (extended dc used payload).readUint DataContext.signTrContext.dataOffset =
      used + payload.length :=
  Memory.readUint_writeUint _ (Nat.lt_trans hroom (by decide))

theorem extended_extended (dc : DataContext) (used : Nat) (first second : List UInt8) :
    extended (extended dc used first) (used + first.length) second =
      extended dc used (first ++ second) := by
  unfold extended Memory.writeUint
  rw [Memory.write_between _ _ (by simp), ← Nat.add_assoc, ← Memory.write_append,
    List.length_append, Nat.add_assoc]

/-- A payload may be buffered in two pieces. -/
theorem appendPayload_append {first second : List UInt8} {dc next : DataContext}
    (h : appendPayload (first ++ second) dc = .ok next) :
    ∃ between, appendPayload first dc = .ok between ∧ appendPayload second between = .ok next := by
  by_cases hfirst : first = []
  · subst hfirst
    exact ⟨dc, rfl, h⟩
  by_cases hsecond : second = []
  · subst hsecond
    rw [List.append_nil] at h
    exact ⟨next, h, rfl⟩
  have hroom : dc.readUint DataContext.signTrContext.dataOffset + (first ++ second).length <
      maxDataLen := by
    unfold appendPayload at h
    rw [if_pos (List.length_pos_iff.mpr (List.append_ne_nil_of_left_ne_nil hfirst second))] at h
    simp only [bind_eq_ok, validate_eq_ok] at h
    obtain ⟨_, hroom, -⟩ := h
    exact hroom
  rw [appendPayload_eq (List.append_ne_nil_of_left_ne_nil hfirst second) rfl hroom] at h
  obtain rfl := Except.ok.inj h
  rw [List.length_append, ← Nat.add_assoc] at hroom
  have hbetween := Nat.lt_of_le_of_lt (Nat.le_add_right _ second.length) hroom
  refine ⟨_, appendPayload_eq hfirst rfl hbetween, ?_⟩
  rw [appendPayload_eq hsecond (extended_offset dc hbetween) hroom, extended_extended]

/-! Chunks. -/

/-- The data of a command, which is not empty. -/
abbrev Chunk := {bytes : List UInt8 // bytes ≠ [] ∧ bytes.length < 256}

/-- P2 is 0 for a single chunk, 2 for the first one, 3 for those between and 1 for the last. -/
def Chunk.command (chunk : Chunk) (isFirstChunk more : Bool) : Command :=
  transactionCommand
    (UInt8.ofNat ((if isFirstChunk then 0 else p2Extend) + (if more then p2More else 0)))
    chunk.val chunk.property.2

theorem Chunk.command_request (chunk : Chunk) (isFirstChunk more : Bool) :
    (chunk.command isFirstChunk more).request =
      .signTransaction chunk.val isFirstChunk more := by
  have hlength : chunk.val.length ≠ 0 := fun h => chunk.property.1 (List.eq_nil_of_length_eq_zero h)
  cases isFirstChunk <;> cases more <;>
    simp [Chunk.command, transactionCommand, Command.request, Ins.ofByte, claByte, p2Extend, p2More,
      hlength]

/-- The commands that send a list of chunks. -/
def transmit (isFirstChunk : Bool) : List (Chunk × Locals) → List (Command × Locals)
  | [] => []
  | (chunk, locals) :: rest =>
      (chunk.command isFirstChunk (!rest.isEmpty), locals) :: transmit false rest

def sentBytes (chunks : List (Chunk × Locals)) : List UInt8 := chunks.flatMap fun sent => sent.1.val

/-- All commands but the last one are answered with success, and the last one comes to
`prepare_to_sign` with the contexts of `held`. -/
inductive Delivered (sdk : Sdk) : Device → List (Command × Locals) → Device → Prop where
  | last {device held : Device} {cmd : Command} {locals : Locals} {cdata : List UInt8}
      {isFirstChunk : Bool} (request : cmd.request = .signTransaction cdata isFirstChunk false)
      (received : receiveChunk sdk cdata isFirstChunk device = .ok held)
      (handled : handle sdk locals cmd.request device = finishTransaction sdk locals held) :
      Delivered sdk device [(cmd, locals)] held
  | more {device next held : Device} {cmd : Command} {locals : Locals}
      {rest : List (Command × Locals)}
      (kept : step sdk device (.command cmd locals) =
        some (next, ⟨some (ioSendSw success), none⟩))
      (later : Delivered sdk next rest held) : Delivered sdk device ((cmd, locals) :: rest) held

theorem Delivered.of_last {sdk : Sdk} {device held : Device} (chunk : Chunk) (locals : Locals)
    {isFirstChunk : Bool} (h : receiveChunk sdk chunk.val isFirstChunk device = .ok held) :
    Delivered sdk device (transmit isFirstChunk [(chunk, locals)]) held := by
  refine .last (chunk.command_request isFirstChunk false) h ?_
  change handle sdk locals (chunk.command isFirstChunk false).request device = _
  rw [chunk.command_request, handle, handleSignTransaction, h]
  rfl

theorem Delivered.of_kept {sdk : Sdk} {device next held : Device} (chunk : Chunk) (locals : Locals)
    {isFirstChunk : Bool} (h : receiveChunk sdk chunk.val isFirstChunk device = .ok next)
    {rest : List (Chunk × Locals)} (hrest : rest ≠ [])
    (hlater : Delivered sdk next (transmit false rest) held) :
    Delivered sdk device (transmit isFirstChunk ((chunk, locals) :: rest)) held := by
  have hmore : (!rest.isEmpty) = true := by
    cases rest with
    | nil => exact absurd rfl hrest
    | cons sent rest => rfl
  rw [transmit, hmore]
  refine .more ?_ hlater
  rw [step, chunk.command_request, handle, handleSignTransaction, h]
  rfl

theorem receiveChunk_next {sdk : Sdk} {cdata : List UInt8} {device : Device} {dc : DataContext}
    (h : appendPayload cdata device.dataContext = .ok dc) :
    receiveChunk sdk cdata false device = .ok { device with dataContext := dc } := by
  unfold receiveChunk
  simp only [Bool.false_eq_true, if_false]
  change (appendPayload (cdata.drop 0) device.dataContext >>= fun dc =>
    pure { device with dataContext := dc }) = _
  rw [List.drop_zero, h]
  rfl

theorem receiveChunk_first {sdk : Sdk} {cdata : List UInt8} {device : Device} {offset : Nat}
    {bc : BocContext} {dc next : DataContext}
    (hheader : readFirstChunk sdk cdata BocContext.zero Memory.zero = .ok (offset, bc, dc))
    (h : appendPayload (cdata.drop offset) dc = .ok next) :
    receiveChunk sdk cdata true device = .ok ⟨bc, next, device.screen⟩ := by
  unfold receiveChunk
  simp only [if_true]
  change (readFirstChunk sdk cdata BocContext.zero Memory.zero >>= _) = _
  rw [hheader, ok_bind, h]
  rfl

/-- The chunks after the first one. -/
theorem delivered_rest {sdk : Sdk} {rest : List (Chunk × Locals)} (hrest : rest ≠ [])
    {device : Device} {dc : DataContext}
    (h : appendPayload (sentBytes rest) device.dataContext = .ok dc) :
    Delivered sdk device (transmit false rest) { device with dataContext := dc } := by
  induction rest generalizing device with
  | nil => exact absurd rfl hrest
  | cons sent rest ih =>
    obtain ⟨chunk, locals⟩ := sent
    rw [sentBytes, List.flatMap_cons] at h
    obtain ⟨between, hfirst, hsecond⟩ := appendPayload_append h
    by_cases hlast : rest = []
    · subst hlast
      obtain rfl := Except.ok.inj hsecond
      exact .of_last chunk locals (receiveChunk_next hfirst)
    · exact .of_kept chunk locals (receiveChunk_next hfirst) hlast
        (@ih hlast { device with dataContext := between } hsecond)

/-! Requests. -/

namespace TransactionRequest

variable (request : TransactionRequest)

/-- What the header leaves, with the payload behind it. -/
theorem inContext_of_held {sdk : Sdk} {dc : DataContext}
    (hheader : HeaderHeld sdk request.header dc) (hdata : buffered dc = request.payload)
    (hoffset : dc.readUint DataContext.signTrContext.dataOffset = request.payload.length) :
    ∃ (address : Hash) (left : BocContext) (written : DataContext),
      getAddress sdk request.accountNumber.toNat request.originWalletType BocContext.zero
        Memory.zero = .ok (address, left, written) ∧ request.InContext address dc := by
  obtain ⟨haccount, hticker, hwallet, hwc, hprepend, hid⟩ := request.header_fields
  obtain ⟨-, -, -, hchain⟩ := request.announces_header
  obtain ⟨address, left, written, haddress, hheld, hprepended⟩ := hheader.addresses
  rw [haccount] at haddress
  refine ⟨address, left, written, haddress, ?_⟩
  constructor
  · rw [hheader.accountNumber, haccount]
  · exact hheader.originWalletType
  · rw [hheader.currentWalletType, hwallet]
  · exact hheader.decimals
  · rw [hheader.ticker, hticker, tickerLen_header]
  · rw [hheader.wc, hwc]
  · exact hheld
  · rw [hprepended, hprepend]
  · rw [hheader.signWithChainId]
    simp only [hchain]
  · intro chainId hsome
    exact hheader.chainId _ (by rw [hid, hsome]; rfl)
  · exact hoffset
  · rw [← hoffset]
    exact hdata

/-- A first chunk with the whole header. -/
theorem split_first {first rest : List UInt8} (h : first ++ rest = request.encode)
    (hfirst : request.header.length ≤ first.length) :
    ∃ payload, first = request.header ++ payload ∧ request.payload = payload ++ rest := by
  refine ⟨first.drop request.header.length, ?_, ?_⟩
  · have htake := congrArg (List.take request.header.length) h
    rw [List.take_append_of_le_length hfirst, encode, List.take_left] at htake
    have hboth := List.take_append_drop request.header.length first
    rw [htake] at hboth
    exact hboth.symm
  · have hdrop := congrArg (List.drop request.header.length) h
    rw [List.drop_append_of_le_length hfirst, encode, List.drop_left] at hdrop
    exact hdrop.symm

/-- The contexts that a request leaves, whatever its chunks are. -/
theorem delivered {sdk : Sdk} {header dc : DataContext}
    (hheader : readFirstChunk sdk request.header BocContext.zero Memory.zero =
      .ok (request.header.length, BocContext.zero, header))
    (hpayload : appendPayload request.payload header = .ok dc) (device : Device)
    (chunk : Chunk) (locals : Locals) (rest : List (Chunk × Locals))
    (hbytes : sentBytes ((chunk, locals) :: rest) = request.encode)
    (hfirst : request.header.length ≤ chunk.val.length) :
    Delivered sdk device (transmit true ((chunk, locals) :: rest))
      ⟨BocContext.zero, dc, device.screen⟩ := by
  have hall : chunk.val ++ sentBytes rest = request.encode := hbytes
  obtain ⟨payload, hchunk, hsplit⟩ := request.split_first hall hfirst
  have hread := (readFirstChunk_givesUp sdk request.header payload _ _).eq_of_ok hheader
  rw [← hchunk] at hread
  have hdrop : chunk.val.drop request.header.length = payload := by
    rw [hchunk, List.drop_left]
  rw [hsplit] at hpayload
  obtain ⟨between, hbetween, hrest⟩ := appendPayload_append hpayload
  rw [← hdrop] at hbetween
  have hreceived := @receiveChunk_first sdk chunk.val device _ _ _ _ hread hbetween
  by_cases hlast : rest = []
  · subst hlast
    obtain rfl := Except.ok.inj hrest
    exact .of_last chunk locals hreceived
  · exact .of_kept chunk locals hreceived hlast
      (@delivered_rest sdk rest hlast ⟨BocContext.zero, between, device.screen⟩ dc hrest)

/-- A first chunk that ends in the header ends the application. -/
theorem step_refused {chunk : Chunk} {more : List UInt8} (h : request.header = chunk.val ++ more)
    (hmore : more ≠ []) (sdk : Sdk) (device : Device) (locals : Locals) (announced : Bool) :
    ∃ error, (error = Err.invalidRequest ∨
        getPublicKey sdk request.accountNumber.toNat = none ∧ error = Err.getPublicKeyFailed) ∧
      step sdk device (.command (chunk.command true announced) locals) =
        some (.initial, ⟨some (ioSendSw error.statusWord), none⟩) := by
  have hstep : ∀ error, readFirstChunk sdk chunk.val BocContext.zero Memory.zero =
      .error (.thrown error) → step sdk device (.command (chunk.command true announced) locals) =
        some (.initial, ⟨some (ioSendSw error.statusWord), none⟩) := by
    intro error hread
    have hreceived : receiveChunk sdk chunk.val true device = .error (.thrown error) := by
      unfold receiveChunk
      simp only [if_true]
      change (readFirstChunk sdk chunk.val BocContext.zero Memory.zero >>= _) = _
      rw [hread]
      rfl
    rw [step, chunk.command_request, handle, handleSignTransaction, hreceived]
    rfl
  obtain hread | ⟨hkey, hread⟩ := request.header_refused h hmore sdk
  · exact ⟨_, Or.inl rfl, hstep _ hread⟩
  · exact ⟨_, Or.inr ⟨hkey, rfl⟩, hstep _ hread⟩

/-- The union that a request leaves on every device, however it is split. -/
theorem exists_delivered {sdk : Sdk} {publicKey : Hash}
    (hkey : getPublicKey sdk request.accountNumber.toNat = some publicKey) :
    ∃ dc : DataContext, HeaderHeld sdk request.header dc ∧ buffered dc = request.payload ∧
      dc.readUint DataContext.signTrContext.dataOffset = request.payload.length ∧
      ∀ (device : Device) (chunk : Chunk) (locals : Locals) (rest : List (Chunk × Locals)),
        sentBytes ((chunk, locals) :: rest) = request.encode →
        request.header.length ≤ chunk.val.length →
          Delivered sdk device (transmit true ((chunk, locals) :: rest))
            ⟨BocContext.zero, dc, device.screen⟩ := by
  obtain ⟨header, hheader⟩ := request.header_accepted hkey
  obtain ⟨hheld, -, -, hzero⟩ := readFirstChunk_ok hheader
  have hempty : buffered header = [] := by
    unfold buffered
    rw [hzero, List.take_zero]
  obtain ⟨dc, hpayload⟩ : ∃ dc, appendPayload request.payload header = .ok dc := by
    by_cases hnone : request.payload = []
    · exact ⟨header, by rw [hnone]; rfl⟩
    · exact ⟨_, appendPayload_eq hnone hzero (by rw [Nat.zero_add]; exact request.payload_length)⟩
  obtain ⟨hbuffered, hoffset, -, hsame⟩ := appendPayload_ok hpayload
    (by rw [hempty]; exact hzero) (by rw [hempty]; decide)
  rw [hempty, List.nil_append] at hbuffered hoffset
  exact ⟨dc, hheld.of_read hsame, hbuffered, hoffset, request.delivered hheader hpayload⟩

end TransactionRequest

/-- What `prepare_to_sign` does to the union leaves the fields of a chunk alone. -/
theorem finishTransaction_read {sdk : Sdk} {locals : Locals} {device next : Device}
    {reply : Option Reply} (h : finishTransaction sdk locals device = .ok (next, reply)) :
    ∀ field ∈ DataContext.signTrContext.data :: DataContext.signTrContext.dataOffset ::
      headerFields, next.dataContext.read field = device.dataContext.read field := by
  simp only [finishTransaction, bind_eq_ok, pure_eq_ok, Prod.mk.injEq] at h
  obtain ⟨prepared, hprepared, rfl, -⟩ := h
  intro field hfield
  apply storePrepared_read hprepared
  revert field
  decide

/-- The reader inverts the encoding of a request, for every split in which the first
chunk has the header; it refuses a first chunk that ends in the header; and the offset
of the buffered data never leaves the buffer. -/
theorem request_in_chunks (sdk : Sdk) (request : TransactionRequest) :
    (∀ publicKey, getPublicKey sdk request.accountNumber.toNat = some publicKey →
      ∃ (address : Hash) (left : BocContext) (written dc : DataContext),
        getAddress sdk request.accountNumber.toNat request.originWalletType BocContext.zero
          Memory.zero = .ok (address, left, written) ∧
        request.InContext address dc ∧
        (∀ (device : Device) (chunk : Chunk) (locals : Locals) (rest : List (Chunk × Locals)),
          sentBytes ((chunk, locals) :: rest) = request.encode →
          request.header.length ≤ chunk.val.length →
            Delivered sdk device (transmit true ((chunk, locals) :: rest))
              ⟨BocContext.zero, dc, device.screen⟩) ∧
        ∀ (locals : Locals) (screen : Option Screen) (next : Device) (reply : Option Reply),
          finishTransaction sdk locals ⟨BocContext.zero, dc, screen⟩ = .ok (next, reply) →
            request.InContext address next.dataContext) ∧
    (∀ (chunk : Chunk) (more : List UInt8), request.header = chunk.val ++ more → more ≠ [] →
      ∀ (device : Device) (locals : Locals) (announced : Bool),
        ∃ error, (error = Err.invalidRequest ∨
            getPublicKey sdk request.accountNumber.toNat = none ∧ error = Err.getPublicKeyFailed) ∧
          step sdk device (.command (chunk.command true announced) locals) =
            some (.initial, ⟨some (ioSendSw error.statusWord), none⟩)) ∧
    ∀ (events : List Event) (device : Device), DeviceRun sdk events device →
      OffsetInBuffer device.dataContext ∧
      ∀ (cdata : List UInt8) (isFirstChunk : Bool) (next : Device),
        receiveChunk sdk cdata isFirstChunk device = .ok next → OffsetInBuffer next.dataContext := by
  refine ⟨fun publicKey hkey => ?_, fun chunk more h hmore device locals announced =>
    request.step_refused h hmore sdk device locals announced, fun events device hrun =>
      ⟨offsetInBuffer_of_run hrun, fun _ _ _ => (offsetInBuffer_of_run hrun).received⟩⟩
  obtain ⟨dc, hall, hbuffered, hoffset, hdelivered⟩ := request.exists_delivered hkey
  obtain ⟨address, left, written, haddress, hcontext⟩ :=
    request.inContext_of_held hall hbuffered hoffset
  refine ⟨address, left, written, dc, haddress, hcontext, hdelivered, ?_⟩
  intro locals screen next reply hfinished
  have hread := finishTransaction_read hfinished
  have hdata := hread _ List.mem_cons_self
  have hdataOffset := hread _ (List.mem_cons_of_mem _ List.mem_cons_self)
  obtain ⟨other, _, _, hother, hnext⟩ := @TransactionRequest.inContext_of_held request sdk
    next.dataContext
    (hall.of_read fun field hfield =>
      hread field (List.mem_cons_of_mem _ (List.mem_cons_of_mem _ hfield)))
    (by rw [buffered, Memory.readUint, hdata, hdataOffset]; exact hbuffered)
    (by rw [Memory.readUint, hdataOffset]; exact hoffset)
  rw [haddress] at hother
  obtain ⟨rfl, -⟩ := Prod.mk.inj (Except.ok.inj hother)
  exact hnext

/-- A transfer of the first account, with a workchain in its header. -/
def someRequest : TransactionRequest where
  accountNumber := 0
  originWalletType := 0
  decimals := 9
  ticker := ascii ['E', 'V', 'E', 'R']
  currentWalletType := none
  workchainId := some 0
  address := none
  chainId := none
  payload := transferBoc
  originWalletType_valid := by decide
  ticker_length := by decide
  payload_length := by decide

theorem request_in_chunks_two :
    (∃ (address : Hash) (dc : DataContext), someRequest.InContext address dc ∧
      Delivered testSdk .initial
        (transmit true [(⟨someRequest.encode.take 30, by decide⟩, zeroLocals),
          (⟨someRequest.encode.drop 30, by decide⟩, zeroLocals)]) ⟨BocContext.zero, dc, none⟩) ∧
    (∃ error, step testSdk .initial
        (.command (Chunk.command ⟨someRequest.header.take 10, by decide⟩ true true) zeroLocals) =
      some (.initial, ⟨some (ioSendSw error), none⟩)) ∧
    OffsetInBuffer Device.initial.dataContext := by
  obtain ⟨publicKey, hkey⟩ := Option.isSome_iff_exists.mp
    (show (getPublicKey testSdk 0).isSome from by decide)
  obtain ⟨hdelivered, hrefused, hoffset⟩ := request_in_chunks testSdk someRequest
  obtain ⟨address, _, _, dc, -, hcontext, hsplit, -⟩ := hdelivered publicKey hkey
  obtain ⟨error, -, hstep⟩ := hrefused ⟨someRequest.header.take 10, by decide⟩
    (someRequest.header.drop 10) (by decide) (by decide) .initial zeroLocals true
  exact ⟨⟨address, dc, hcontext, hsplit .initial ⟨someRequest.encode.take 30, by decide⟩ zeroLocals
    [(⟨someRequest.encode.drop 30, by decide⟩, zeroLocals)] (by decide) (by decide)⟩,
    ⟨_, hstep⟩, (hoffset [] .initial .nil).1⟩

end EverscaleLedger.Properties
