import EverscaleLedger.Properties.DecodedCells
import EverscaleLedger.Properties.Transmission

/-! Whether the screens are those of the function that a message calls, and whether
every string on them was written. -/
namespace EverscaleLedger.Properties

open Library Source

/-- The flow is that of the function called, and its strings were written. -/
structure FlowMatches (family : WalletFamily) (root : RawCell) (d : Decoded) : Prop where
  deploy : family ≠ .walletV3 → functionOf root = some .deployTransaction → d.flow = .deploy
  confirm : family ≠ .walletV3 → functionOf root = some .confirmTransaction → d.flow = .confirm
  shown : FlowShown d.flow d.display

/-- The ids of a function, as `contract.h` lists them. -/
def ContractFunction.ids : ContractFunction → List Nat
  | .deployTransaction => [1813932348, 733015951]
  | .sendTransaction => [1290691692]
  | .submitTransaction => [320701133, 1428000117]
  | .confirmTransaction => [447168749]

theorem ofId_eq_some_iff {functionId : Nat} {function : ContractFunction} :
    ContractFunction.ofId functionId = some function ↔
      functionId ∈ ContractFunction.ids function := by
  constructor
  · intro h
    unfold ContractFunction.ofId at h
    split_ifs at h <;> obtain rfl := Option.some.inj h <;> simpa [ContractFunction.ids]
  · intro h
    cases function <;> simp only [ContractFunction.ids, List.mem_cons, List.not_mem_nil,
      or_false] at h <;> rcases h with rfl | rfl <;> rfl

/-- The function called is the one that the id in the header of the root belongs to. -/
theorem functionOf_eq_some_iff {root : RawCell} {function : ContractFunction} :
    functionOf root = some function ↔ ∃ functionId next,
      deserializeContractHeader root.slice = .ok (functionId, next) ∧
        functionId ∈ ContractFunction.ids function := by
  simp only [← ofId_eq_some_iff]
  unfold functionOf
  cases deserializeContractHeader root.slice with
  | error error => simp
  | ok header => simp [Prod.ext_iff]

/-- By the ids: deployments, and confirmations. -/
theorem FlowMatches.flow_of_id {family : WalletFamily} {root : RawCell} {d : Decoded}
    {functionId : Nat} {next : SliceData} (h : FlowMatches family root d) (hne : family ≠ .walletV3)
    (hheader : deserializeContractHeader root.slice = .ok (functionId, next)) :
    (functionId = 1813932348 ∨ functionId = 733015951 → d.flow = .deploy) ∧
      (functionId = 447168749 → d.flow = .confirm) := by
  constructor
  · intro hid
    apply h.deploy hne
    exact functionOf_eq_some_iff.mpr ⟨_, _, hheader, by simpa [ContractFunction.ids] using hid⟩
  · intro hid
    apply h.confirm hne
    exact functionOf_eq_some_iff.mpr ⟨_, _, hheader, by simpa [ContractFunction.ids] using hid⟩

/-- A deployment or confirmation that comes with a gift body, which is decoded as
the body of a token message. -/
def BodyOverridesFlow (family : WalletFamily) (cells : List RawCell) (root : RawCell) : Prop :=
  family ≠ .walletV3 ∧
    (functionOf root = some .deployTransaction ∨ functionOf root = some .confirmTransaction) ∧
    ∃ gift, cells[giftIndexOf family root]? = some gift ∧ HasGiftBody cells gift

theorem FlowDecided.flowMatches {family : WalletFamily} {cells : List RawCell}
    {root gift : RawCell} {d : Decoded} (h : FlowDecided family cells root gift d)
    (hbody : family ≠ .walletV3 → HasGiftBody cells gift →
      functionOf root ≠ some .deployTransaction ∧ functionOf root ≠ some .confirmTransaction) :
    FlowMatches family root d := by
  by_cases hfamily : family = .walletV3
  · exact ⟨fun hne => absurd hfamily hne, fun hne => absurd hfamily hne, h.walletV3 hfamily⟩
  obtain ⟨function, before, hfunction, hbefore, hwith, hwithout⟩ := (h.contract hfamily).function
  by_cases hgift : HasGiftBody cells gift
  · obtain ⟨hdeploy, hconfirm⟩ := hbody hfamily hgift
    rw [hfunction] at hdeploy hconfirm
    have htransfer : flowOf function = .transfer := by
      cases function with
      | deployTransaction => exact absurd rfl hdeploy
      | sendTransaction => rfl
      | submitTransaction => rfl
      | confirmTransaction => exact absurd rfl hconfirm
    rw [htransfer] at hbefore
    exact ⟨fun _ hcalled => absurd (hfunction.symm.trans hcalled) hdeploy,
      fun _ hcalled => absurd (hfunction.symm.trans hcalled) hconfirm,
      (hwith hgift).shown hbefore.1 hbefore.2⟩
  · obtain ⟨hflow, hdisplay⟩ := hwithout hgift
    refine ⟨fun _ hcalled => ?_, fun _ hcalled => ?_, ?_⟩
    · rw [hflow, Option.some.inj (hfunction.symm.trans hcalled)]
      rfl
    · rw [hflow, Option.some.inj (hfunction.symm.trans hcalled)]
      rfl
    · rw [hflow, hdisplay]
      exact hbefore

/-- The flow matches the function called, on every success, exactly when no gift
body comes with a deployment or a confirmation. -/
theorem flowMatches_iff {sdk : Sdk} {locals : Locals} {request : SigningRequest}
    {bc : BocContext} {src : ByteStream} {p : Prepared} {family : WalletFamily} {root : RawCell}
    (reception : Reception src bc) (hfamily : request.family = some family)
    (hroot : reception.cells[rootCellIndex]? = some root)
    (h : request.prepare sdk locals bc src = .ok p) :
    FlowMatches family root p.decoded ↔ ¬ BodyOverridesFlow family reception.cells root := by
  obtain ⟨received, _, toHash, hreceived, hprepares, -⟩ := reception.prepares hfamily h
  obtain rfl := Option.some.inj (hroot.symm.trans hreceived)
  obtain ⟨gift, hdecoded, -, hdecided⟩ := hprepares.decodedFrom hroot
  have hgift := hdecoded.gift_eq
  rw [hdecoded.giftIndex_eq] at hgift
  constructor
  · rintro hmatches ⟨hne, hcalled, other, hother, hbody⟩
    obtain rfl := Option.some.inj (hgift.symm.trans hother)
    obtain ⟨function, before, hfunction, -, hwith, -⟩ := (hdecided.contract hne).function
    have hflow := (hwith hbody).flow_token
    obtain hdeploy | hconfirm := hcalled
    · rw [hmatches.deploy hne hdeploy] at hflow
      simp at hflow
    · rw [hmatches.confirm hne hconfirm] at hflow
      simp at hflow
  · intro hnot
    apply hdecided.flowMatches
    intro hne hbody
    exact ⟨fun hdeploy => hnot ⟨hne, Or.inl hdeploy, gift, hgift, hbody⟩,
      fun hconfirm => hnot ⟨hne, Or.inr hconfirm, gift, hgift, hbody⟩⟩

/-- The root of a contract message that calls a deployment. -/
def deployRoot : RawCell where
  d1 := 0x01
  d2 := 0x21
  data := [0x00, 0x00, 0x00, 0x00, 0x00, 0x00, 0x00, 0x00, 0x00, 0x00, 0x00, 0x00,
    0x36, 0x0F, 0x34, 0x9E, 0x40]
  refs := [0x01]
  data_length := by decide
  refs_length := one_ref

/-- The parameters of a deployment, without and with a further cell. -/
def deployGift (d1 : UInt8) (refs : List UInt8) (h : refs.length = refsCountOf d1) : RawCell where
  d1 := d1
  d2 := 0x00
  data := []
  refs := refs
  data_length := no_data
  refs_length := h

def ownersCell : RawCell where
  d1 := 0x00
  d2 := 0x02
  data := [0x00]
  refs := []
  data_length := by decide
  refs_length := no_refs

def plainDeploy : List RawCell := [deployRoot, deployGift 0x00 [] no_refs]

def deployWithOwners : List RawCell := [deployRoot, deployGift 0x01 [0x02] one_ref, ownersCell]

theorem flowMatches_plainDeploy :
    ∃ p, (plainRequest 2).prepare testSdk zeroLocals BocContext.zero
        (received (serialize plainHeader 0x02 plainDeploy)) = .ok p ∧
      FlowMatches .contract deployRoot p.decoded := by
  obtain ⟨reception, p, hcells, hp, -⟩ := @exists_run_of_cells (plainRequest 2) 0x02 plainDeploy
    (fun _ => True) (by decide) (by decide) (by decide) (by decide +kernel)
  have hroot : reception.cells[rootCellIndex]? = some deployRoot := by
    rw [hcells]
    rfl
  refine ⟨p, hp, (flowMatches_iff reception (show _ = some .contract by decide) hroot hp).mpr ?_⟩
  rintro ⟨-, -, gift, hgift, hrefs, -⟩
  rw [hcells, giftIndexOf, if_neg (by decide +kernel)] at hgift
  obtain rfl := Option.some.inj hgift
  exact hrefs rfl

theorem deploy_shown_as_transfer :
    ¬ ∀ (sdk : Sdk) (locals : Locals) (request : SigningRequest) (src : ByteStream) (p : Prepared)
      (family : WalletFamily) (root : RawCell) (reception : Reception src BocContext.zero),
      request.family = some family → reception.cells[rootCellIndex]? = some root →
      request.prepare sdk locals BocContext.zero src = .ok p →
      FlowMatches family root p.decoded := by
  intro hall
  obtain ⟨reception, p, hcells, hp, hflow, hamount⟩ := @exists_run_of_cells (plainRequest 2) 0x03
    deployWithOwners
    (fun p => p.decoded.flow = .transfer ∧ p.decoded.display.amountStr = none)
    (by decide) (by decide) (by decide) (by decide +kernel)
  have hmatches := hall testSdk zeroLocals (plainRequest 2) _ p .contract deployRoot reception
    (by decide) (by rw [hcells]; rfl) hp
  have hshown := hmatches.shown
  rw [hflow] at hshown
  exact not_shown_none (hamount ▸ hshown.1)

end EverscaleLedger.Properties
