import EverscaleLedger.Properties.Approval
import EverscaleLedger.Properties.Coverage
import EverscaleLedger.Properties.FirstChunk

/-! Sessions of SIGN_TRANSACTION chunks. The device keeps no record of them; here
a history variable does. -/
namespace EverscaleLedger.Properties

open Library Source

/-- An open session: the bytes of its first chunk, and of the chunks after it. -/
structure Session where
  first : List UInt8
  rest : List (List UInt8)
deriving DecidableEq

namespace Session

def data (session : Session) : List UInt8 :=
  FirstChunk.payload session.first ++ session.rest.flatten

def extend (session : Session) (cdata : List UInt8) : Session :=
  ⟨session.first, session.rest ++ [cdata]⟩

/-- The session that a chunk belongs to. -/
def withChunk (session : Option Session) (cdata : List UInt8) (isFirstChunk : Bool) :
    Option Session :=
  if isFirstChunk then some ⟨cdata, []⟩ else session.map fun session => session.extend cdata

/-- The session after a request that ended without an exception. -/
def afterRequest (sdk : Sdk) (session : Option Session) : Request → Option Session
  | .getAppConfiguration | .refused _ => session
  | .getPublicKey cdata _ => if derivedKey sdk cdata = none then session else none
  | .getAddress _ _ | .sign _ => none
  | .signTransaction cdata isFirstChunk more =>
      if more then withChunk session cdata isFirstChunk else none

/-- The session after a step. An approved key or address clears the contexts. -/
def after (sdk : Sdk) (device : Device) (session : Option Session) : Event → Option Session
  | .command cmd locals =>
      match handle sdk locals cmd.request device with
      | .ok _ => afterRequest sdk session cmd.request
      | .error _ => none
  | .answer true =>
      match device.screen.map Screen.callback with
      | some .validatePubkey | some .validateAddress => none
      | _ => session
  | .answer false => session

end Session

/-- The bytes of a SIGN_TRANSACTION chunk. -/
def chunkOf : Event → List (List UInt8)
  | .command cmd _ =>
      match cmd.request with
      | .signTransaction cdata _ _ => [cdata]
      | _ => []
  | .answer _ => []

/-- The session consists of a first chunk of the run and of the chunks after it. -/
def Session.Received (session : Session) (events : List Event) : Prop :=
  ∃ (earlier later : List Event) (cmd : Command) (locals : Locals) (more : Bool),
    events = earlier ++ .command cmd locals :: later ∧
    cmd.request = .signTransaction session.first true more ∧
    session.rest = later.flatMap chunkOf

/-- The session is under way: all of its chunks have announced a further one. -/
def Session.UnderWay (session : Session) (events : List Event) : Prop :=
  ∃ (earlier later : List Event) (cmd : Command) (locals : Locals),
    events = earlier ++ .command cmd locals :: later ∧
    cmd.request = .signTransaction session.first true true ∧
    session.rest = later.flatMap chunkOf ∧
    ∀ (cmd : Command) (locals : Locals) (cdata : List UInt8) (isFirstChunk more : Bool),
      .command cmd locals ∈ later → cmd.request = .signTransaction cdata isFirstChunk more →
        isFirstChunk = false ∧ more = true

/-- What `prepare_to_sign` finds in the contexts is what the session sent. -/
structure Session.Isolated (sdk : Sdk) (session : Session) (device : Device) : Prop where
  header : HeaderHeld sdk session.first device.dataContext
  data : buffered device.dataContext = session.data
  bocContext : device.bocContext = BocContext.zero

/-- A chunk that is not a first one comes in a run with an open session only. -/
def InSession (sdk : Sdk) (events : List Event) (device : Device) : Event → Prop
  | .command cmd _ => ∀ cdata more, cmd.request = .signTransaction cdata false more →
      ∀ opened, Run (withHistory (step sdk) (Session.after sdk)) (Device.initial, none) events
        (device, opened) → opened ≠ none
  | .answer _ => True

/-- No step brings a chunk that is not a first one without an open session. -/
def KeepsSession (state : Device × Option Session) : Event → Prop
  | .command cmd _ => ∀ cdata more, cmd.request = .signTransaction cdata false more → state.2 ≠ none
  | .answer _ => True

/-- A final chunk reaches `prepare_to_sign` with the contexts of its session, and a chunk
that is not a first one continues a session under way, which the contexts hold, or is
rejected. -/
structure ChunkIsolated (sdk : Sdk) (events : List Event) (device : Device) (cmd : Command)
    (locals : Locals) : Prop where
  final : ∀ (cdata : List UInt8) (isFirstChunk : Bool) (next : Device),
    cmd.request = .signTransaction cdata isFirstChunk false →
    receiveChunk sdk cdata isFirstChunk device = .ok next →
      ∃ session : Session, session.Received (events ++ [.command cmd locals]) ∧
        session.Isolated sdk next
  continues : ∀ (cdata : List UInt8) (more : Bool), cmd.request = .signTransaction cdata false more →
    (∃ session : Session, session.UnderWay events ∧ session.Isolated sdk device) ∨
      ∃ error, handle sdk locals cmd.request device = .error (.thrown error)

/-! What the steps of an open session leave alone. -/

def headerFields : List Field := headFields ++ tailFields

theorem HeaderHeld.of_read {sdk : Sdk} {cdata : List UInt8} {dc next : DataContext}
    (h : HeaderHeld sdk cdata dc)
    (hsame : ∀ field ∈ headerFields, next.read field = dc.read field) :
    HeaderHeld sdk cdata next := by
  obtain ⟨address, bc, written, haddress, hheld, hprepend⟩ := h.addresses
  refine ⟨?_, ?_, ?_, ?_, ?_, ?_, ⟨address, bc, written, haddress, ?_, ?_⟩, ?_, ?_⟩
  · rw [Memory.readUint, hsame _ (by decide)]
    exact h.accountNumber
  · rw [hsame _ (by decide), h.originWalletType]
  · rw [hsame _ (by decide), h.currentWalletType]
  · rw [hsame _ (by decide), h.decimals]
  · rw [hsame _ (by decide), h.ticker]
  · rw [hsame _ (by decide), h.wc]
  · rw [hsame _ (by decide), hheld]
  · rw [hsame _ (by decide), hprepend]
  · rw [hsame _ (by decide), h.signWithChainId]
  · intro bytes hbytes
    rw [hsame _ (by decide), h.chainId bytes hbytes]

/-- A session under way: isolated, and the buffer has room for the offset. -/
structure Session.Open (sdk : Sdk) (session : Session) (device : Device) : Prop where
  isolated : session.Isolated sdk device
  dataOffset : device.dataContext.readUint DataContext.signTrContext.dataOffset =
    session.data.length
  data_lt : session.data.length < maxDataLen

theorem appendPayload_ok {payload : List UInt8} {dc next : DataContext}
    (h : appendPayload payload dc = .ok next)
    (hoffset : dc.readUint DataContext.signTrContext.dataOffset = (buffered dc).length)
    (hlt : (buffered dc).length < maxDataLen) :
    buffered next = buffered dc ++ payload ∧
      next.readUint DataContext.signTrContext.dataOffset = (buffered dc ++ payload).length ∧
      (buffered dc ++ payload).length < maxDataLen ∧
      ∀ field ∈ headerFields, next.read field = dc.read field := by
  unfold appendPayload at h
  split at h
  · simp only [bind_eq_ok, validate_eq_ok, pure_eq_ok] at h
    obtain ⟨_, hroom, rfl⟩ := h
    generalize hused : dc.readUint DataContext.signTrContext.dataOffset = used at hroom hoffset
    have hmax : used + payload.length < 1024 := hroom
    have hnext : ((dc.write (DataContext.signTrContext.data.offset + used) payload).writeUint
        DataContext.signTrContext.dataOffset (used + payload.length)).readUint
          DataContext.signTrContext.dataOffset = used + payload.length :=
      Memory.readUint_writeUint _ (Nat.lt_trans hmax (by decide))
    have hsame : ∀ field : Field, field.offset + field.size ≤ 308 ∨ 1334 ≤ field.offset →
        ((dc.write (DataContext.signTrContext.data.offset + used) payload).writeUint
          DataContext.signTrContext.dataOffset (used + payload.length)).read field =
            dc.read field := by
      intro field hfield
      have hdataOffset : field.Apart 1332 2 := by
        unfold Field.Apart
        omega
      have hdata : field.Apart (DataContext.signTrContext.data.offset + used) payload.length := by
        have hstart : DataContext.signTrContext.data.offset = 308 := rfl
        unfold Field.Apart
        omega
      unfold Memory.writeUint
      rw [Memory.read_write_apart _ (by rw [Memory.length_littleEndian]; exact hdataOffset),
        Memory.read_write_apart _ hdata]
    have hbuffered : buffered ((dc.write (DataContext.signTrContext.data.offset + used)
        payload).writeUint DataContext.signTrContext.dataOffset (used + payload.length)) =
          buffered dc ++ payload := by
      unfold buffered
      rw [hnext, hused]
      unfold Memory.writeUint
      rw [Memory.read_write_apart _ (by rw [Memory.length_littleEndian]; decide)]
      exact Memory.take_read_write_at dc (Nat.le_of_lt hmax)
    refine ⟨hbuffered, ?_, ?_, fun field hfield => hsame field ?_⟩
    · rw [hnext, List.length_append, hoffset]
    · rw [List.length_append, ← hoffset]
      exact hmax
    · revert field
      decide
  next hempty =>
    rw [pure_eq_ok] at h
    subst h
    obtain rfl : payload = [] := List.eq_nil_of_length_eq_zero (by omega)
    rw [List.append_nil]
    exact ⟨rfl, hoffset, hlt, fun _ _ => rfl⟩

/-- A chunk that continues a session. -/
theorem Session.Open.continued {sdk : Sdk} {session : Session} {device next : Device}
    {cdata : List UInt8} (h : session.Open sdk device)
    (hreceived : receiveChunk sdk cdata false device = .ok next) :
    (session.extend cdata).Open sdk next := by
  obtain ⟨dc, hdc, rfl⟩ := receiveChunk_next_ok hreceived
  have hdata := h.isolated.data
  obtain ⟨hbuffered, hoffset, hlt, hsame⟩ := appendPayload_ok hdc
    (by rw [hdata]; exact h.dataOffset) (by rw [hdata]; exact h.data_lt)
  have hextended : (session.extend cdata).data = session.data ++ cdata := by
    simp [Session.data, Session.extend]
  rw [hdata, ← hextended] at hbuffered hoffset hlt
  exact ⟨⟨h.isolated.header.of_read hsame, hbuffered, h.isolated.bocContext⟩, hoffset, hlt⟩

/-- A first chunk opens a session, whatever the state was. -/
theorem open_of_first {sdk : Sdk} {device next : Device} {cdata : List UInt8}
    (hreceived : receiveChunk sdk cdata true device = .ok next) :
    Session.Open sdk ⟨cdata, []⟩ next := by
  simp only [receiveChunk, if_true, bind_eq_ok, pure_eq_ok] at hreceived
  obtain ⟨⟨offset, bc, dc⟩, hfirst, dc', hdc', rfl⟩ := hreceived
  obtain ⟨hheader, rfl, rfl, hzero⟩ := readFirstChunk_ok hfirst
  have hempty : buffered dc = [] := by
    unfold buffered
    rw [hzero, List.take_zero]
  obtain ⟨hbuffered, hoffset, hlt, hsame⟩ := appendPayload_ok hdc'
    (by rw [hempty]; exact hzero) (by rw [hempty]; decide)
  have hdata : (Session.mk cdata []).data = FirstChunk.payload cdata := List.append_nil _
  rw [hempty, List.nil_append, ← FirstChunk.payload, ← hdata] at hbuffered hoffset hlt
  exact ⟨⟨hheader.of_read hsame, hbuffered, rfl⟩, hoffset, hlt⟩

theorem Session.Open.of_union {sdk : Sdk} {session : Session} {device next : Device}
    (h : session.Open sdk device) (hbc : next.bocContext = device.bocContext)
    (hsame : ∀ field ∈ DataContext.signTrContext.data :: DataContext.signTrContext.dataOffset ::
      headerFields, next.dataContext.read field = device.dataContext.read field) :
    session.Open sdk next := by
  have hdata := hsame _ List.mem_cons_self
  have hoffset := hsame _ (List.mem_cons_of_mem _ List.mem_cons_self)
  refine ⟨⟨h.isolated.header.of_read fun field hfield =>
    hsame field (List.mem_cons_of_mem _ (List.mem_cons_of_mem _ hfield)), ?_,
    hbc.trans h.isolated.bocContext⟩, ?_, h.data_lt⟩
  · rw [buffered, Memory.readUint, hdata, hoffset]
    exact h.isolated.data
  · rw [Memory.readUint, hoffset]
    exact h.dataOffset

/-- A signature is put where no field of a session lies. -/
theorem Session.Open.signed {sdk : Sdk} {session : Session} {device : Device}
    (h : session.Open sdk device) {field : Field} (signature : Vector UInt8 64)
    (hfield : field = DataContext.signContext.signature ∨
      field = DataContext.signTrContext.signature) :
    session.Open sdk { device with
      dataContext := device.dataContext.write field.offset signature.toList } := by
  refine h.of_union rfl fun other hother => Memory.read_write_apart _ ?_
  rw [Vector.length_toList]
  obtain rfl | rfl := hfield
  · revert other
    decide
  · revert other
    decide

namespace Session.UnderWay

variable {session : Session} {events : List Event} {event : Event}

theorem received (h : session.UnderWay events) : session.Received events := by
  obtain ⟨earlier, later, cmd, locals, hevents, hrequest, hrest, -⟩ := h
  exact ⟨earlier, later, cmd, locals, true, hevents, hrequest, hrest⟩

/-- Other events leave it under way. -/
theorem later (h : session.UnderWay events)
    (hevent : ∀ (cmd : Command) (locals : Locals) (cdata : List UInt8) (isFirstChunk more : Bool),
      event = .command cmd locals → cmd.request ≠ .signTransaction cdata isFirstChunk more) :
    session.UnderWay (events ++ [event]) := by
  obtain ⟨earlier, later, cmd, locals, rfl, hrequest, hrest, hmore⟩ := h
  have hnone : chunkOf event = [] := by
    cases event with
    | answer choice => rfl
    | command cmd locals =>
      simp only [chunkOf]
      split
      next cdata isFirstChunk more hchunk =>
        exact absurd hchunk (hevent cmd locals cdata isFirstChunk more rfl)
      next => rfl
  refine ⟨earlier, later ++ [event], cmd, locals, by simp, hrequest, ?_, ?_⟩
  · rw [hrest, List.flatMap_append, List.flatMap_singleton, hnone, List.append_nil]
  · intro cmd locals cdata isFirstChunk more hmem hchunk
    obtain hmem | hlast := List.mem_append.mp hmem
    · exact hmore cmd locals cdata isFirstChunk more hmem hchunk
    · exact absurd hchunk
        (hevent cmd locals cdata isFirstChunk more (List.mem_singleton.mp hlast).symm)

end Session.UnderWay

theorem Session.Received.extend {session : Session} {events : List Event} {event : Event}
    {cdata : List UInt8} (h : session.Received events) (hevent : chunkOf event = [cdata]) :
    (session.extend cdata).Received (events ++ [event]) := by
  obtain ⟨earlier, later, cmd, locals, more, rfl, hrequest, hrest⟩ := h
  refine ⟨earlier, later ++ [event], cmd, locals, more, by simp, hrequest, ?_⟩
  rw [List.flatMap_append, List.flatMap_singleton, hevent, ← hrest]
  rfl

theorem chunkOf_signTransaction {cmd : Command} {locals : Locals} {cdata : List UInt8}
    {isFirstChunk more : Bool} (h : cmd.request = .signTransaction cdata isFirstChunk more) :
    chunkOf (.command cmd locals) = [cdata] := by
  simp only [chunkOf, h]

/-- A further chunk that announces another one. -/
theorem Session.UnderWay.extend {session : Session} {events : List Event} {cmd : Command}
    {locals : Locals} {cdata : List UInt8} (h : session.UnderWay events)
    (hrequest : cmd.request = .signTransaction cdata false true) :
    (session.extend cdata).UnderWay (events ++ [.command cmd locals]) := by
  obtain ⟨earlier, later, first, firstLocals, rfl, hfirst, hrest, hmore⟩ := h
  refine ⟨earlier, later ++ [.command cmd locals], first, firstLocals, by simp, hfirst, ?_, ?_⟩
  · rw [List.flatMap_append, List.flatMap_singleton, chunkOf_signTransaction hrequest, ← hrest]
    rfl
  · intro other locals' cdata' isFirstChunk more hmem hchunk
    obtain hmem | hlast := List.mem_append.mp hmem
    · exact hmore other locals' cdata' isFirstChunk more hmem hchunk
    · obtain ⟨rfl, -⟩ := Event.command.inj (List.mem_singleton.mp hlast)
      obtain ⟨-, rfl, rfl⟩ := Request.signTransaction.inj (hrequest.symm.trans hchunk)
      exact ⟨rfl, rfl⟩

/-- A chunk that belongs to a session, together with what was received before it. -/
theorem withChunk_open {sdk : Sdk} {device next : Device} {session : Option Session}
    {events : List Event} {cmd : Command} {locals : Locals} {cdata : List UInt8}
    {isFirstChunk more : Bool}
    (h : ∀ earlier, session = some earlier → earlier.Open sdk device ∧ earlier.UnderWay events)
    (hrequest : cmd.request = .signTransaction cdata isFirstChunk more)
    (hreceived : receiveChunk sdk cdata isFirstChunk device = .ok next) :
    ∀ later, Session.withChunk session cdata isFirstChunk = some later →
      later.Open sdk next ∧ later.Received (events ++ [.command cmd locals]) ∧
        (more = true → later.UnderWay (events ++ [.command cmd locals])) := by
  intro later hlater
  cases isFirstChunk with
  | true =>
    obtain rfl := Option.some.inj hlater
    refine ⟨open_of_first hreceived, ⟨events, [], cmd, locals, more, rfl, hrequest, rfl⟩, ?_⟩
    rintro rfl
    exact ⟨events, [], cmd, locals, rfl, hrequest, rfl, fun _ _ _ _ _ hmem => absurd hmem List.not_mem_nil⟩
  | false =>
    obtain ⟨earlier, hearlier, rfl⟩ := Option.map_eq_some_iff.mp hlater
    obtain ⟨hopen, hunderWay⟩ := h earlier hearlier
    refine ⟨hopen.continued hreceived,
      hunderWay.received.extend (chunkOf_signTransaction hrequest), ?_⟩
    rintro rfl
    exact hunderWay.extend hrequest

/-- An open session is isolated and under way. -/
def Tracked (sdk : Sdk) (events : List Event) (state : Device × Option Session) : Prop :=
  ∀ session, state.2 = some session → session.Open sdk state.1 ∧ session.UnderWay events

theorem Tracked.handled {sdk : Sdk} {events : List Event} {device next : Device}
    {session : Option Session} {cmd : Command} {locals : Locals}
    (h : Tracked sdk events (device, session))
    (hhandled : Handled sdk locals device cmd.request next) :
    Tracked sdk (events ++ [.command cmd locals])
      (next, Session.afterRequest sdk session cmd.request) := by
  generalize hrequest : cmd.request = request at hhandled
  intro later hlater
  have hother (hne : ∀ cdata isFirstChunk more,
      request ≠ .signTransaction cdata isFirstChunk more) (hkept : session = some later) :
      later.Open sdk device ∧ later.UnderWay (events ++ [.command cmd locals]) := by
    obtain ⟨hopen, hunderWay⟩ := h later hkept
    refine ⟨hopen, hunderWay.later fun other _ cdata isFirstChunk more heq hchunk => ?_⟩
    obtain ⟨rfl, -⟩ := Event.command.inj heq
    exact hne cdata isFirstChunk more (hrequest.symm.trans hchunk)
  cases hhandled with
  | configurationSent => exact hother (fun _ _ _ => Request.noConfusion) hlater
  | refused error => exact hother (fun _ _ _ => Request.noConfusion) hlater
  | publicKeyFailed cdata display =>
    simp only [Session.afterRequest] at hlater
    split at hlater
    · exact hother (fun _ _ _ => Request.noConfusion) hlater
    · cases hlater
  | publicKeyShown cdata key derived =>
    simp only [Session.afterRequest, derived, reduceCtorEq, if_false] at hlater
  | publicKeySent cdata key derived =>
    simp only [Session.afterRequest, derived, reduceCtorEq, if_false] at hlater
  | addressShown cdata account typed computed => cases hlater
  | addressSent cdata => cases hlater
  | messageShown cdata accountNumber message bounded sized => cases hlater
  | chunkKept cdata isFirstChunk received =>
    obtain ⟨hopen, -, hunderWay⟩ := withChunk_open h hrequest received later hlater
    exact ⟨hopen, hunderWay rfl⟩
  | transactionShown cdata isFirstChunk received accepted => cases hlater

theorem Tracked.step {sdk : Sdk} {events : List Event} {state next : Device × Option Session}
    {event : Event} {effect : Effect} (h : Tracked sdk events state)
    (hlast : withHistory (step sdk) (Session.after sdk) state event = some (next, effect)) :
    Tracked sdk (events ++ [event]) next := by
  obtain ⟨device, session⟩ := state
  obtain ⟨next, result⟩ := next
  obtain ⟨hstep, hsession⟩ := withHistory_eq_some.mp hlast
  simp only at hstep hsession
  subst hsession
  cases event with
  | command cmd locals =>
    cases hhandle : handle sdk locals cmd.request device with
    | error abort =>
      intro later hlater
      simp only [Session.after, hhandle, reduceCtorEq] at hlater
    | ok handled =>
      obtain ⟨handled, reply⟩ := handled
      simp only [Source.step, hhandle, Option.some.injEq, Prod.mk.injEq] at hstep
      obtain ⟨rfl, -⟩ := hstep
      simp only [Session.after, hhandle]
      exact h.handled (handle_ok hhandle)
  | answer choice =>
    intro later hlater
    have hother : ∀ (cmd : Command) (locals : Locals) (cdata : List UInt8) (isFirstChunk more : Bool),
        Event.answer choice = .command cmd locals →
          cmd.request ≠ .signTransaction cdata isFirstChunk more :=
      fun _ _ _ _ _ heq => Event.noConfusion heq
    cases step_ok hstep with
    | rejected shown effect silent =>
      obtain ⟨hopen, hevents⟩ := h later hlater
      exact ⟨hopen.of_union rfl fun _ _ => rfl, hevents.later hother⟩
    | @approved screen shown =>
      simp only [Session.after, shown, Option.map_some] at hlater
      obtain ⟨-, hcallback | hcallback⟩ | ⟨hcallback, hdevice⟩ :=
        approve_device sdk screen.callback device
      · simp only [hcallback, reduceCtorEq] at hlater
      · simp only [hcallback, reduceCtorEq] at hlater
      · have hkept : session = some later := by
          obtain hcallback | hcallback := hcallback <;> simpa only [hcallback] using hlater
        obtain ⟨hopen, hevents⟩ := h later hkept
        refine ⟨?_, hevents.later hother⟩
        obtain hsame | ⟨field, signature, hfield, hsigned⟩ := hdevice
        · simp only [hsame]
          exact hopen.of_union rfl fun _ _ => rfl
        · simp only [hsigned]
          exact (hopen.signed signature hfield).of_union rfl fun _ _ => rfl

theorem Run.tracked {sdk : Sdk} {events : List Event} {state : Device × Option Session}
    (hrun : Run (withHistory (step sdk) (Session.after sdk)) (Device.initial, none) events state) :
    Tracked sdk events state := by
  induction hrun with
  | nil =>
    intro session hsession
    cases hsession
  | snoc _ last ih => exact ih.step last

/-- In a run whose further chunks all come in an open session, every chunk is isolated: a
final one reaches `prepare_to_sign` with the contexts of its session, and a further one
continues a session that the contexts hold. -/
theorem sessions_isolated (sdk : Sdk) {events : List Event} {state : Device × Option Session}
    (hrun : RunWithin (withHistory (step sdk) (Session.after sdk)) KeepsSession
      (Device.initial, none) events state) {cmd : Command} {locals : Locals}
    (hadmitted : KeepsSession state (.command cmd locals)) :
    ChunkIsolated sdk events state.1 cmd locals := by
  have htracked := Run.tracked hrun.run
  constructor
  · intro cdata isFirstChunk next hrequest hreceived
    have hsome : ∃ session, Session.withChunk state.2 cdata isFirstChunk = some session := by
      cases isFirstChunk with
      | true => exact ⟨_, rfl⟩
      | false =>
        obtain ⟨earlier, hearlier⟩ := Option.ne_none_iff_exists'.mp (hadmitted cdata false hrequest)
        rw [hearlier]
        exact ⟨_, rfl⟩
    obtain ⟨session, hsession⟩ := hsome
    obtain ⟨hopen, hevents, -⟩ := withChunk_open htracked hrequest hreceived session hsession
    exact ⟨session, hevents, hopen.isolated⟩
  · intro cdata more hrequest
    obtain ⟨session, hsession⟩ := Option.ne_none_iff_exists'.mp (hadmitted cdata more hrequest)
    obtain ⟨hopen, hunderWay⟩ := htracked session hsession
    exact Or.inl ⟨session, hunderWay, hopen.isolated⟩

def transactionCommand (p2 : UInt8) (cdata : List UInt8) (h : cdata.length < 256) : Command :=
  ⟨0xE0, 5, 1, p2, cdata, h⟩

/-- The header of a WALLET_V3 transaction of the first account. -/
def plainChunk (payload : List UInt8) : List UInt8 :=
  [0, 0, 0, 0, 0, 9, 4] ++ ascii ['E', 'V', 'E', 'R'] ++ [0] ++ payload

def transferBoc : List UInt8 := serialize plainHeader 0x02 attachedTransfer

/-- The first chunk of a transfer, and a configuration request. -/
def transferBegun : List Event := [
  .command (transactionCommand 2 (plainChunk (transferBoc.take 10)) (by decide)) zeroLocals,
  .command configurationCommand zeroLocals]

theorem transferBegun_request :
    (transactionCommand 2 (plainChunk (transferBoc.take 10)) (by decide)).request =
      .signTransaction (plainChunk (transferBoc.take 10)) true true := by
  decide

/-- A transfer in two chunks, with a configuration request in between. -/
theorem transfer_in_two_chunks :
    ∃ (device : Device) (opened : Option Session) (next : Device) (session : Session),
      RunWithin (withHistory (step testSdk) (Session.after testSdk)) KeepsSession
        (Device.initial, none) transferBegun (device, opened) ∧
      receiveChunk testSdk (transferBoc.drop 10) false device = .ok next ∧
      session.Received (transferBegun ++
        [.command (transactionCommand 1 (transferBoc.drop 10) (by decide)) zeroLocals]) ∧
      session.Isolated testSdk next := by
  have hsteps : Yields (steps (withHistory (step testSdk) (Session.after testSdk))
      (Device.initial, none) transferBegun) fun state => state.2 ≠ none ∧
        Succeeds (receiveChunk testSdk (transferBoc.drop 10) false state.1) fun _ => True := by
    decide +kernel
  obtain ⟨⟨device, opened⟩, hrun, hsession, hreceived⟩ := exists_run hsteps
  obtain ⟨next, hreceived, -⟩ := hreceived.exists
  have hrequest : (transactionCommand 1 (transferBoc.drop 10) (by decide)).request =
      .signTransaction (transferBoc.drop 10) false false := by decide
  have hadmitted : ∀ event ∈ transferBegun, ∀ state, KeepsSession state event := by
    intro event hevent state
    simp only [transferBegun, List.mem_cons, List.not_mem_nil, or_false] at hevent
    obtain rfl | rfl := hevent
    · intro cdata more hfirst
      cases transferBegun_request.symm.trans hfirst
    · intro cdata more hconfiguration
      cases (show configurationCommand.request = .getAppConfiguration by decide).symm.trans
        hconfiguration
  have hwithin := RunWithin.of_run hrun hadmitted
  obtain ⟨session, hevents, hisolated⟩ := (sessions_isolated testSdk hwithin
    fun _ _ _ => hsession).final _ _ _ hrequest hreceived
  exact ⟨device, opened, next, session, hwithin, hreceived, hevents, hisolated⟩

/-- The extending flag is not checked: the first command of a run may be a last chunk,
which is taken for a whole transaction of the zeroed context, or a chunk with more to
come, which is kept. -/
theorem chunk_without_session :
    (Yields (step testSdk .initial
        (.command (transactionCommand 1 transferBoc (by decide)) zeroLocals))
      fun result => result.1.screen.map Screen.callback = some .validateTransaction) ∧
    (Yields (step testSdk .initial
        (.command (transactionCommand 3 transferBoc (by decide)) zeroLocals))
      fun result => result.2.reply = some (ioSendSw success)) ∧
    (¬ ∀ (sdk : Sdk) (events : List Event) (device : Device) (cmd : Command) (locals : Locals),
      DeviceRun sdk events device → ChunkIsolated sdk events device cmd locals) := by
  refine ⟨by decide +kernel, by decide +kernel, fun hall => ?_⟩
  have hrequest : (transactionCommand 1 transferBoc (by decide)).request =
      .signTransaction transferBoc false false := by decide
  have hreceived : Succeeds (receiveChunk testSdk transferBoc false .initial) fun _ => True := by
    decide +kernel
  obtain ⟨next, hreceived, -⟩ := hreceived.exists
  obtain ⟨session, ⟨earlier, later, cmd, locals, more, hevents, hfirst, -⟩, -⟩ :=
    (hall testSdk [] .initial _ zeroLocals .nil).final _ _ next hrequest hreceived
  have hmem : Event.command cmd locals ∈
      [Event.command (transactionCommand 1 transferBoc (by decide)) zeroLocals] := by
    rw [List.nil_append] at hevents
    rw [hevents]
    exact List.mem_append_right earlier List.mem_cons_self
  obtain ⟨rfl, -⟩ := Event.command.inj (List.mem_singleton.mp hmem)
  cases (Request.signTransaction.inj (hrequest.symm.trans hfirst)).2.1

end EverscaleLedger.Properties
