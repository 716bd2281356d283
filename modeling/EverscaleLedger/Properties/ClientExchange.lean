import EverscaleLedger.Properties.WalletRefinement

/-! The whole exchange about a transaction: the client sends a request in chunks, the user
answers, and the device replies. It has the same outcome on every device. -/
namespace EverscaleLedger.Properties

open Library Source

/-- What the client sees: success for every command but the last one. -/
def exchange (outcome : Effect) : List (Command × Locals) → List (Event × Effect)
  | [] => []
  | [(cmd, locals)] => [(.command cmd locals, outcome)]
  | (cmd, locals) :: rest =>
      (.command cmd locals, ⟨some (ioSendSw success), none⟩) :: exchange outcome rest

theorem exchange_cons (outcome : Effect) (cmd : Command) (locals : Locals)
    {rest : List (Command × Locals)} (hrest : rest ≠ []) :
    exchange outcome ((cmd, locals) :: rest) =
      (.command cmd locals, ⟨some (ioSendSw success), none⟩) :: exchange outcome rest := by
  cases rest with
  | nil => exact absurd rfl hrest
  | cons sent rest => rfl

theorem Delivered.ne_nil {sdk : Sdk} {device held : Device} {sent : List (Command × Locals)}
    (h : Delivered sdk device sent held) : sent ≠ [] := by
  cases h with
  | last => exact List.cons_ne_nil _ _
  | more => exact List.cons_ne_nil _ _

/-- The last command of a delivery decides how the exchange ends. -/
theorem Delivered.trace {sdk : Sdk} {device held : Device} {sent : List (Command × Locals)}
    (h : Delivered sdk device sent held) (outcome : Effect) (kind : Device → Prop)
    (hlast : ∀ (device : Device) (cmd : Command) (locals : Locals),
      handle sdk locals cmd.request device = finishTransaction sdk locals held →
        ∃ next, step sdk device (.command cmd locals) = some (next, outcome) ∧ kind next) :
    ∃ next, Trace (step sdk) device (exchange outcome sent) next ∧ kind next := by
  induction h with
  | last _ _ handled =>
    obtain ⟨next, hstep, hnext⟩ := hlast _ _ _ handled
    exact ⟨next, Trace.cons hstep .nil, hnext⟩
  | more kept later ih =>
    obtain ⟨next, htrace, hnext⟩ := ih hlast
    rw [exchange_cons _ _ _ later.ne_nil]
    exact ⟨next, Trace.cons kept htrace, hnext⟩

namespace TransactionRequest

variable (request : TransactionRequest)

/-- A request as the wallet holds it, with the address that is derived for it. -/
def incoming (derived : Hash) : Incoming where
  accountNumber := request.accountNumber.toNat
  request :=
    { ctx :=
        { signWithChainId := request.chainId.isSome
          chainId := (request.chainId.map Vector.toList).getD []
          currentWalletType := request.currentWalletType.getD request.originWalletType
          decimals := request.decimals.toNat
          ticker := request.ticker ++ List.replicate (maxTickerLen - request.ticker.length) 0 }
      wc := request.workchainId.getD 0
      address := derived.toList
      prependAddress := (request.address.getD derived).toList }
  payload := request.payload

theorem heldIn_of_inContext {derived : Hash} {dc : DataContext} (h : request.InContext derived dc) :
    (request.incoming derived).HeldIn dc := by
  refine ⟨h.accountNumber, ?_, ?_, h.dataOffset, request.payload_length⟩
  · constructor
    · exact (byte_of_read rfl h.wc).symm
    · exact h.address.symm
    · exact h.prependAddress.symm
    · exact (byte_of_read rfl h.currentWalletType).symm
    · exact congrArg UInt8.toNat (byte_of_read rfl h.decimals).symm
    · exact h.ticker.symm
    · have hflag := byte_of_read rfl h.signWithChainId
      simp only [incoming, requestOf, SignTransactionContext.ofData]
      rw [hflag]
      cases request.chainId with
      | none => rfl
      | some chainId => rfl
    · intro hset
      obtain ⟨chainId, hchain⟩ := Option.isSome_iff_exists.mp hset
      simp only [incoming, hchain, Option.map_some, Option.getD_some]
      exact (h.chainId chainId hchain).symm
  · unfold buffered
    rw [h.dataOffset]
    exact h.data

/-- However a request is split, every device comes to hold it. -/
theorem held {sdk : Sdk} {publicKey : Hash}
    (hkey : getPublicKey sdk request.accountNumber.toNat = some publicKey) :
    ∃ (address : Hash) (dc : DataContext),
      walletAddress sdk request.accountNumber.toNat request.originWalletType = .ok address ∧
      (request.incoming address).HeldIn dc ∧
      ∀ (device : Device) (chunk : Chunk) (locals : Locals) (rest : List (Chunk × Locals)),
        sentBytes ((chunk, locals) :: rest) = request.encode →
        request.header.length ≤ chunk.val.length →
          Delivered sdk device (transmit true ((chunk, locals) :: rest))
            ⟨BocContext.zero, dc, device.screen⟩ := by
  obtain ⟨dc, hheld, hbuffered, hoffset, hdelivered⟩ := request.exists_delivered hkey
  obtain ⟨address, left, written, haddress, hcontext⟩ :=
    request.inContext_of_held hheld hbuffered hoffset
  refine ⟨address, dc, ?_, request.heldIn_of_inContext hcontext, hdelivered⟩
  have hsame := walletAddress_alike sdk request.accountNumber.toNat request.originWalletType
    harmless_zero Memory.zero
  rw [haddress] at hsame
  generalize walletAddress sdk request.accountNumber.toNat request.originWalletType = outcome at hsame
  cases hsame with
  | ok heq => exact congrArg Except.ok heq.symm

end TransactionRequest

theorem finishTransaction_faithful {sdk : Sdk} {locals : Locals} {device next : Device}
    {reply : Option Reply} (h : finishTransaction sdk locals device = .ok (next, reply)) :
    Faithful next := by
  simp only [finishTransaction, bind_eq_ok, pure_eq_ok, Prod.mk.injEq] at h
  obtain ⟨prepared, hprepared, rfl, -⟩ := h
  intro screen hscreen
  obtain rfl := Option.some.inj hscreen
  simp only [pending, transactionMessage_storePrepared (prepareTransaction_toSign hprepared)]

/-- A request that is offered for approval waits for it on every device, whatever was done
with the device before, and the answer to it gives out what the wallet offers. A request
with an error ends the application with the error. -/
theorem request_answered (sdk : Sdk) (request : TransactionRequest) {publicKey : Hash}
    (hkey : getPublicKey sdk request.accountNumber.toNat = some publicKey) :
    ∃ address : Hash,
      walletAddress sdk request.accountNumber.toNat request.originWalletType = .ok address ∧
      ∀ (device : Device) (chunk : Chunk) (locals : Locals) (rest : List (Chunk × Locals)),
        sentBytes ((chunk, locals) :: rest) = request.encode →
        request.header.length ≤ chunk.val.length →
          (∀ value, (request.incoming address).offer sdk = .ok value →
            ∃ waiting approved rejected,
              Trace (step sdk) device
                (exchange ⟨none, none⟩ (transmit true ((chunk, locals) :: rest))) waiting ∧
              step sdk waiting (.answer true) = some (approved, releasedEffect sdk value) ∧
              step sdk waiting (.answer false) =
                some (rejected, ⟨some (ioSendSw Err.userRejected.statusWord), none⟩)) ∧
          ∀ error, (request.incoming address).offer sdk = .error (.thrown error) →
            Trace (step sdk) device
              (exchange ⟨some (ioSendSw error.statusWord), none⟩
                (transmit true ((chunk, locals) :: rest))) .initial := by
  obtain ⟨address, dc, haddress, hheld, hdelivered⟩ := request.held hkey
  refine ⟨address, haddress, fun device chunk locals rest hbytes hfirst => ?_⟩
  have hcame := hdelivered device chunk locals rest hbytes hfirst
  have hoffer := fun locals => @finishTransaction_implements sdk locals
    ⟨BocContext.zero, dc, device.screen⟩ _ hheld rfl
  constructor
  · intro value hvalue
    obtain ⟨waiting, htrace, hfaithful, hwaits⟩ := hcame.trace ⟨none, none⟩
      (fun next => Faithful next ∧ next.screen.map Screen.computed = some value) (by
        intro last cmd locals hhandle
        have halike := hoffer locals
        rw [hvalue] at halike
        generalize hfinished : finishTransaction sdk locals _ = result at halike
        cases halike with
        | @ok _ result hboth =>
          refine ⟨result.1, ?_, finishTransaction_faithful hfinished, hboth.1⟩
          simp only [step]
          rw [hhandle, hfinished]
          simp only [hboth.2])
    obtain ⟨screen, hscreen, rfl⟩ := Option.map_eq_some_iff.mp hwaits
    refine ⟨waiting, _, { waiting with screen := none }, htrace, hfaithful.approved hscreen, ?_⟩
    simp only [step, hscreen]
    rfl
  · intro error herror
    obtain ⟨_, htrace, rfl⟩ := hcame.trace ⟨some (ioSendSw error.statusWord), none⟩
      (fun next => next = .initial) (by
        intro last cmd locals hhandle
        have halike := hoffer locals
        rw [herror] at halike
        generalize hfinished : finishTransaction sdk locals _ = result at halike
        cases halike with
        | error _ =>
          refine ⟨_, ?_, rfl⟩
          simp only [step]
          rw [hhandle, hfinished])
    exact htrace

/-! A request of a transfer in two chunks. -/

theorem firstHalf_fits :
    someRequest.encode.take 30 ≠ [] ∧ (someRequest.encode.take 30).length < 256 := by
  decide

theorem secondHalf_fits :
    someRequest.encode.drop 30 ≠ [] ∧ (someRequest.encode.drop 30).length < 256 := by
  decide

def firstHalf : Chunk := ⟨someRequest.encode.take 30, firstHalf_fits⟩

def secondHalf : Chunk := ⟨someRequest.encode.drop 30, secondHalf_fits⟩

theorem request_answered_transfer : ∃ (address : Hash) (value : Released) (waiting : Device),
    (someRequest.incoming address).offer testSdk = .ok value ∧
    Trace (step testSdk) .initial (exchange ⟨none, none⟩
      (transmit true [(firstHalf, zeroLocals), (secondHalf, zeroLocals)])) waiting ∧
    ∃ approved, step testSdk waiting (.answer true) =
      some (approved, releasedEffect testSdk value) := by
  obtain ⟨publicKey, hkey⟩ := Option.isSome_iff_exists.mp
    (show (getPublicKey testSdk 0).isSome from by decide)
  obtain ⟨address, haddress, hall⟩ := request_answered testSdk someRequest hkey
  have hsuccess : Succeeds (do
      let address ← walletAddress testSdk someRequest.accountNumber.toNat
        someRequest.originWalletType
      (someRequest.incoming address).offer testSdk) fun _ => True := by
    decide +kernel
  rw [haddress, ok_bind] at hsuccess
  obtain ⟨value, hvalue, -⟩ := hsuccess.exists
  obtain ⟨waiting, approved, -, htrace, happroved, -⟩ := (hall .initial firstHalf zeroLocals
    [(secondHalf, zeroLocals)] (by decide) (by decide)).1 value hvalue
  exact ⟨address, value, waiting, hvalue, htrace, approved, happroved⟩

end EverscaleLedger.Properties
