import EverscaleLedger.Properties.AddressInputs
import EverscaleLedger.Properties.Sessions

/-! Addresses along a run: what commands leave for the next one. -/
namespace EverscaleLedger.Properties

open Library Source

/-- The depth that a cell is raised to, over the depths of the cells after it. -/
def RawCell.raisedDepth (c : RawCell) (start : UInt8) (depths : Nat → UInt8) : UInt8 :=
  if c.Pruned then c.storedDepth
  else c.refs.foldl (fun depth ref => raiseDepth depth (depths ref.toNat)) start

/-- The depths that a list of cells gets, the first of them in slot `i`. -/
def raisedDepths (depths : Nat → UInt8) : (i : Nat) → List RawCell → Nat → UInt8
  | _, [] => depths
  | i, c :: cells =>
      let later := raisedDepths depths (i + 1) cells
      Function.update later i (c.raisedDepth (depths i) later)

theorem RawCell.raisedDepth_congr (c : RawCell) (start : UInt8) {depths result : Nat → UInt8}
    (h : ∀ r ∈ c.refs, result r.toNat = depths r.toNat) :
    c.raisedDepth start result = c.raisedDepth start depths := by
  unfold raisedDepth
  split
  · rfl
  · apply List.foldl_ext
    intro depth r hr
    rw [h r hr]

/-- A table that satisfies the equations of the cells is the one they get. The
induction is on the cells: each one refers to later slots. -/
theorem raisedDepths_unique {depths result : Nat → UInt8} {cells : List RawCell} {i : Nat}
    (hlater : ∀ k c, cells[k]? = some c → ∀ r ∈ c.refs, i + k < r.toNat)
    (hcells : ∀ k c, 0 < i + k → cells[k]? = some c →
      result (i + k) = c.raisedDepth (depths (i + k)) result)
    (hrest : ∀ j, i + cells.length ≤ j → result j = depths j) {j : Nat} (hij : i ≤ j)
    (hpos : 0 < j) : raisedDepths depths i cells j = result j := by
  induction cells generalizing i j with
  | nil => exact (hrest j hij).symm
  | cons c cells ih =>
    have hnext : ∀ {j}, i + 1 ≤ j → 0 < j → raisedDepths depths (i + 1) cells j = result j := by
      refine ih (fun k d hd r hr => ?_) (fun k d hk hd => ?_) fun j hj => hrest j ?_
      · have hlt := hlater (k + 1) d hd r hr
        omega
      · have heq := hcells (k + 1) d (by omega) hd
        rwa [show i + (k + 1) = i + 1 + k by omega] at heq
      · rw [List.length_cons]
        omega
    rw [raisedDepths]
    by_cases hself : j = i
    · subst hself
      have hself : result j = c.raisedDepth (depths j) result := hcells 0 c hpos rfl
      rw [Function.update_self, hself]
      apply c.raisedDepth_congr
      intro r hr
      have hlt := hlater 0 c rfl r hr
      exact hnext (by omega) (by omega)
    · rw [Function.update_of_ne hself]
      exact hnext (by omega) hpos

/-- The depths that a signed message leaves are those of its received cells. -/
theorem SignedRoot.cellDepth_eq {sdk : Sdk} {src : ByteStream} {bc toHash : BocContext}
    {reception : Reception src bc} {family : WalletFamily} {received root : RawCell} {p : Prepared}
    (h : SignedRoot sdk reception family received root toHash p) {i : Nat} (hi : 0 < i) :
    p.hashed.cellDepth i = raisedDepths bc.cellDepth 0 reception.cells i := by
  symm
  refine raisedDepths_unique (fun k c hc r hr => ?_) (fun k c hk hc => ?_) (fun j hj => ?_)
    (Nat.zero_le i) hi
  · rw [Nat.zero_add]
    exact reception.forward.later k c hc r hr
  · rw [Nat.zero_add] at hk ⊢
    rw [← h.cellDepth]
    exact (h.tables.digested k c hk hc).2
  · rw [Nat.zero_add] at hj
    rw [← h.cellDepth]
    exact (h.tables.outside j hj).2

theorem Reception.cells_unique {src : ByteStream} {bc : BocContext}
    (first second : Reception src bc) : first.cells = second.cells := by
  have hfirst := first.parsed_cells
  have hsecond := second.parsed_cells
  rw [← first.parsed_unique second.parse] at hsecond
  have hlength : first.cells.length = second.cells.length := by
    rw [← hfirst.count, ← hsecond.count]
  apply List.ext_getElem hlength
  intro i hi hi'
  obtain ⟨_, hholds⟩ := hfirst.holds i _ (List.getElem?_eq_getElem hi)
  obtain ⟨_, hholds'⟩ := hsecond.holds i _ (List.getElem?_eq_getElem hi')
  exact hholds.unique hholds'

/-- The buffered message leaves nothing behind that matters: `boc_context` is
cleared for its wallet, or its cells are shallow in the slots of a template. -/
def Shallow (device : Device) : Prop :=
  (requestOf device.dataContext).family = some .prefixedContract ∨
    ∀ reception : Reception (received (buffered device.dataContext)) device.bocContext,
      HarmlessDepths (raisedDepths device.bocContext.cellDepth 0 reception.cells)

/-- No address of a multisig wallet is shown for confirmation, and every message
that is accepted is shallow. -/
def LeavesHarmless (sdk : Sdk) (device : Device) : Event → Prop
  | .command cmd locals =>
      (∀ cdata byte type, cmd.request = .getAddress cdata true → derivedKey sdk cdata ≠ none →
        cdata[4]? = some byte → WalletType.ofByte byte = some type → multisigWallet type = none) ∧
      ∀ cdata isFirstChunk next prepared,
        cmd.request = .signTransaction cdata isFirstChunk false →
        receiveChunk sdk cdata isFirstChunk device = .ok next →
        prepareTransaction sdk locals next = .ok prepared → Shallow next
  | .answer _ => True

theorem prepareTransaction_harmless {sdk : Sdk} {locals : Locals} {device : Device}
    {prepared : Prepared} (h : prepareTransaction sdk locals device = .ok prepared)
    (hharmless : Harmless device.bocContext) (hshallow : Shallow device) : Harmless prepared.bc := by
  obtain ⟨next, parsed, family, rootSlice, toHash, hparse, hprepares⟩ :=
    prepare_ok (prepareTransaction_ok h)
  obtain ⟨reception, rfl⟩ := exists_reception hparse
  obtain ⟨_, _, -, hsigned⟩ := hprepares.signedRoot
  rw [hprepares.bc]
  split
  next => exact harmless_zero
  next hfamily =>
    constructor
    · obtain hprefixed | hdepths := hshallow
      · rw [hprepares.family_eq] at hprefixed
        exact absurd (Option.some.inj hprefixed) hfamily
      · intro i hpos hlt
        rw [hsigned.cellDepth_eq hpos]
        exact hdepths reception i hpos hlt
    · rw [hsigned.tables.same.publicKeyCellData, hsigned.publicKeyCellData]
      exact hharmless.keyData

theorem receiveChunk_harmless {sdk : Sdk} {cdata : List UInt8} {isFirstChunk : Bool}
    {device next : Device} (h : receiveChunk sdk cdata isFirstChunk device = .ok next)
    (hharmless : Harmless device.bocContext) : Harmless next.bocContext := by
  cases isFirstChunk with
  | true =>
    rw [(open_of_first h).isolated.bocContext]
    exact harmless_zero
  | false =>
    obtain ⟨dc, -, rfl⟩ := receiveChunk_next_ok h
    exact hharmless

theorem Handled.harmless {sdk : Sdk} {locals : Locals} {device next : Device} {cmd : Command}
    (h : Handled sdk locals device cmd.request next) (hharmless : Harmless device.bocContext)
    (hleaves : LeavesHarmless sdk device (.command cmd locals)) : Harmless next.bocContext := by
  obtain ⟨hasks, hshallow⟩ := hleaves
  generalize hrequest : cmd.request = request at h
  cases h with
  | configurationSent => exact hharmless
  | refused error => exact hharmless
  | publicKeyFailed cdata display => exact hharmless
  | publicKeyShown cdata key derived => exact hharmless
  | publicKeySent cdata key derived => exact harmless_zero
  | @addressShown cdata _ _ _ _ _ account typed computed =>
    cases getAddress_ok computed with
    | plain => exact hharmless
    | multisig type_eq wallet_eq derived load hash =>
      have hkey : derivedKey sdk cdata ≠ none := by
        rw [derivedKey, account]
        simp only [derived]
        exact Option.some_ne_none _
      rw [hasks cdata _ _ hrequest hkey typed type_eq] at wallet_eq
      cases wallet_eq
  | addressSent cdata => exact harmless_zero
  | messageShown cdata accountNumber message bounded sized => exact hharmless
  | chunkKept cdata isFirstChunk received => exact receiveChunk_harmless received hharmless
  | transactionShown cdata isFirstChunk received accepted =>
    exact prepareTransaction_harmless accepted (receiveChunk_harmless received hharmless)
      (hshallow cdata isFirstChunk _ _ hrequest received accepted)

theorem Stepped.harmless {sdk : Sdk} {device next : Device} {event : Event} {effect : Effect}
    (h : Stepped sdk device event next effect) (hharmless : Harmless device.bocContext)
    (hleaves : LeavesHarmless sdk device event) : Harmless next.bocContext := by
  cases h with
  | restarted cmd locals effect silent => exact harmless_zero
  | handled hhandled effect silent => exact hhandled.harmless hharmless hleaves
  | @approved screen shown =>
    obtain ⟨hreset, -⟩ | ⟨-, hsame | ⟨field, signature, -, hsigned⟩⟩ :=
      approve_device sdk screen.callback device
    · simp only [hreset]
      exact harmless_zero
    · simp only [hsame]
      exact hharmless
    · simp only [hsigned]
      exact hharmless
  | rejected shown effect silent => exact hharmless

/-- In runs that leave harmless depths only, the address of every wallet is the
one that cleared contexts give. -/
theorem address_independent_of_history (sdk : Sdk) {events : List Event} {device : Device}
    (hrun : DeviceRunWithin sdk (LeavesHarmless sdk) events device) (accountNumber : Nat)
    (walletType : UInt8) :
    addressOf sdk accountNumber walletType device.bocContext device.dataContext =
      addressOf sdk accountNumber walletType BocContext.zero Memory.zero := by
  have hharmless : Harmless device.bocContext :=
    hrun.invariant (fun device => Harmless device.bocContext) harmless_zero
      fun _ _ _ _ h hleaves hstep => (step_ok hstep).harmless h hleaves
  exact addressOf_agree sdk accountNumber walletType hharmless harmless_zero _ _

def transferCommand : Command := transactionCommand 0 (plainChunk transferBoc) (by decide)

theorem transferCommand_request : transferCommand.request =
    .signTransaction (plainChunk transferBoc) true false := by decide

theorem attachedTransfer_shallow {device next : Device}
    (h : receiveChunk testSdk (plainChunk transferBoc) true device = .ok next) : Shallow next := by
  have hisolated := (open_of_first h).isolated
  have hbuffered : buffered next.dataContext = transferBoc :=
    hisolated.data.trans (by decide)
  unfold Shallow
  rw [hbuffered, hisolated.bocContext]
  apply Or.inr
  intro reception
  obtain ⟨sent, -, -, hsent⟩ := exists_reception_of_cells plainHeader 0x02 attachedTransfer
    BocContext.zero (by decide) (by decide) (by decide)
  rw [Reception.cells_unique reception sent, hsent]
  decide

/-- An approved transfer leaves the depths of its two cells. -/
theorem address_after_transfer :
    ∃ device, DeviceRun testSdk [.command transferCommand zeroLocals, .answer true] device ∧
      addressOf testSdk 0 2 device.bocContext device.dataContext =
        addressOf testSdk 0 2 BocContext.zero Memory.zero := by
  have hsteps : Yields (step testSdk .initial (.command transferCommand zeroLocals))
      fun result => Yields (step testSdk result.1 (.answer true)) fun _ => True := by
    decide +kernel
  obtain ⟨⟨shown, first⟩, hfirst, ⟨device, second⟩, hsecond, -⟩ := hsteps
  have hleaves : LeavesHarmless testSdk .initial (.command transferCommand zeroLocals) := by
    constructor
    · intro _ _ _ hrequest
      cases transferCommand_request.symm.trans hrequest
    · intro _ _ _ _ hrequest hreceived _
      cases transferCommand_request.symm.trans hrequest
      exact attachedTransfer_shallow hreceived
  have hrun : DeviceRunWithin testSdk (LeavesHarmless testSdk)
      [.command transferCommand zeroLocals, .answer true] device :=
    (RunWithin.nil.snoc hleaves hfirst).snoc trivial hsecond
  exact ⟨device, hrun.run, address_independent_of_history testSdk hrun 0 2⟩

/-- GET_ADDRESS of the first account with confirmation. -/
def addressCommand (walletType : UInt8) : Command :=
  ⟨0xE0, 4, 1, 0, [0, 0, 0, 0, walletType], show 5 < 256 by decide⟩

/-- The address of a safe multisig wallet is rejected on the screen. Its depths stay
behind, and the address of a bridge multisig wallet is computed with them. -/
theorem address_after_rejection :
    ¬ ∀ (sdk : Sdk) (events : List Event) (device : Device) (accountNumber : Nat)
      (walletType : UInt8), DeviceRun sdk events device →
        addressOf sdk accountNumber walletType device.bocContext device.dataContext =
          addressOf sdk accountNumber walletType BocContext.zero Memory.zero := by
  intro hall
  have hsteps : Yields (steps (step testSdk) .initial
      [.command (addressCommand 2) zeroLocals, .answer false]) fun device =>
        addressOf testSdk 0 5 device.bocContext device.dataContext ≠
          addressOf testSdk 0 5 BocContext.zero Memory.zero := by
    decide +kernel
  obtain ⟨device, hrun, hne⟩ := exists_run hsteps
  exact hne (hall testSdk _ device 0 5 hrun)

end EverscaleLedger.Properties
