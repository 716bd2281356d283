import EverscaleLedger.Source.Contract
import EverscaleLedger.Properties.Transmission

/-! `get_address`, cut at the point where the public key is derived. -/
namespace EverscaleLedger.Properties

open Library Source

/-- What `compute_multisig_address` is called with for a wallet type. -/
structure MultisigWallet where
  wallet : List UInt8
  codeHash : Hash
  cellDepth : Nat

def multisigWallet : WalletType → Option MultisigWallet
  | .walletV3 | .everWallet => none
  | .safeMultisigWallet => some ⟨safeMultisigWallet, safeMultisigWalletCodeHash, 0x0C⟩
  | .safeMultisigWallet24h => some ⟨safeMultisigWallet24h, safeMultisigWallet24hCodeHash, 0x0C⟩
  | .setcodeMultisigWallet => some ⟨setcodeMultisigWallet, setcodeMultisigWalletCodeHash, 0x0D⟩
  | .bridgeMultisigWallet => some ⟨bridgeMultisigWallet, bridgeMultisigWalletCodeHash, 0x0B⟩
  | .surfWallet => some ⟨surfWallet, surfWalletCodeHash, 0x0C⟩
  | .multisig2 => some ⟨multisig2Wallet, multisig2WalletCodeHash, 0x0C⟩
  | .multisig21 => some ⟨multisig21Wallet, multisig21WalletCodeHash, 0x0A⟩

/-- The steps before the key: the template is loaded and the data of the public
key cell is copied. -/
def MultisigWallet.load (wallet : MultisigWallet) (bc : BocContext) : Outcome BocContext := do
  let bc ← loadWallet wallet.wallet wallet.codeHash wallet.cellDepth bc
  let cellIndex ← BocContext.slot bc.publicKeyCellIndex
  let cell := bc.cells cellIndex
  let cellDataSize ← cell.getDataSize
  validate (cellDataSize ≠ 0 ∧ cellDataSize ≤ maxPublicKeyCellDataSize) .invalidContract
  let cellData ← cell.getData
  let block ← loadMany cellData cellDataSize
  let publicKeyCellData ← storeMany bc.publicKeyCellData 0 block
  pure { bc with publicKeyCellData }

/-- The steps after it: the key is inserted and the cells are hashed. -/
def hashWallet (sdk : Sdk) (publicKey : Hash) (bc : BocContext) : Outcome BocContext := do
  let publicKeyCellData ← insertPublicKey bc publicKey
  calcCellHashes sdk (bc.publicKeyCellIndex + 1) { bc with publicKeyCellData }

def writeKey (dc : DataContext) (publicKey : Hash) : DataContext :=
  dc.write DataContext.pkContext.publicKey.offset publicKey.toList

theorem computeMultisigAddress_eq (sdk : Sdk) (accountNumber : Nat) (wallet : MultisigWallet)
    (bc : BocContext) (dc : DataContext) :
    computeMultisigAddress sdk accountNumber wallet.wallet wallet.codeHash wallet.cellDepth bc dc =
      (do
        let bc ← wallet.load bc
        match getPublicKey sdk accountNumber with
        | none => .error (.thrown .getPublicKeyFailed)
        | some publicKey => do
            let bc ← hashWallet sdk publicKey bc
            pure (bc.hashes 0, bc, writeKey dc publicKey)) := by
  unfold computeMultisigAddress MultisigWallet.load hashWallet writeKey
  cases getPublicKey sdk accountNumber with
  | none => simp only [bind_assoc, pure_bind]
  | some publicKey => simp only [bind_assoc, pure_bind]

/-- `get_address` on a wallet whose address is computed from a template. -/
theorem getAddress_multisig (sdk : Sdk) (accountNumber : Nat) {walletType : UInt8}
    {type : WalletType} {wallet : MultisigWallet} (htype : WalletType.ofByte walletType = some type)
    (hwallet : multisigWallet type = some wallet) (bc : BocContext) (dc : DataContext) :
    getAddress sdk accountNumber walletType bc dc =
      computeMultisigAddress sdk accountNumber wallet.wallet wallet.codeHash wallet.cellDepth
        bc dc := by
  unfold getAddress
  rw [htype]
  cases type <;> cases hwallet <;> rfl

/-- The address of the other wallets does not involve the contexts. -/
theorem getAddress_plain (sdk : Sdk) (accountNumber : Nat) (walletType : UInt8)
    (h : ∀ type, WalletType.ofByte walletType = some type → multisigWallet type = none) :
    ∃ address : Outcome Hash, ∀ bc dc,
      getAddress sdk accountNumber walletType bc dc = (do pure (← address, bc, dc)) := by
  unfold getAddress
  cases htype : WalletType.ofByte walletType with
  | none => exact ⟨.error (.thrown .invalidWalletType), fun _ _ => rfl⟩
  | some type =>
    have hplain := h type htype
    cases type with
    | walletV3 => exact ⟨computeWalletV3Address sdk accountNumber, fun _ _ => rfl⟩
    | everWallet => exact ⟨computeEverWalletAddress sdk accountNumber, fun _ _ => rfl⟩
    | _ => cases hplain

/-- How an address came about, and what was left in the contexts. -/
inductive AddressComputed (sdk : Sdk) (accountNumber : Nat) (walletType : UInt8) (bc : BocContext)
    (dc : DataContext) : Hash → BocContext → DataContext → Prop where
  | plain {address : Hash}
      (plain : ∀ type, WalletType.ofByte walletType = some type → multisigWallet type = none)
      (same : ∀ bc dc, getAddress sdk accountNumber walletType bc dc = .ok (address, bc, dc)) :
      AddressComputed sdk accountNumber walletType bc dc address bc dc
  | multisig {type : WalletType} {wallet : MultisigWallet} {publicKey : Hash}
      {loaded hashed : BocContext} (typed : WalletType.ofByte walletType = some type)
      (wallet_eq : multisigWallet type = some wallet)
      (derived : getPublicKey sdk accountNumber = some publicKey)
      (load : wallet.load bc = .ok loaded) (hash : hashWallet sdk publicKey loaded = .ok hashed) :
      AddressComputed sdk accountNumber walletType bc dc (hashed.hashes 0) hashed
        (writeKey dc publicKey)

theorem getAddress_ok {sdk : Sdk} {accountNumber : Nat} {walletType : UInt8}
    {bc left : BocContext} {dc written : DataContext} {address : Hash}
    (h : getAddress sdk accountNumber walletType bc dc = .ok (address, left, written)) :
    AddressComputed sdk accountNumber walletType bc dc address left written := by
  by_cases hplain : ∀ type, WalletType.ofByte walletType = some type → multisigWallet type = none
  · obtain ⟨computed, hcomputed⟩ := getAddress_plain sdk accountNumber walletType hplain
    rw [hcomputed, bind_eq_ok] at h
    obtain ⟨address, haddress, h⟩ := h
    rw [pure_eq_ok, Prod.mk.injEq, Prod.mk.injEq] at h
    obtain ⟨rfl, rfl, rfl⟩ := h
    refine .plain hplain fun bc dc => ?_
    rw [hcomputed, haddress]
    rfl
  · simp only [not_forall] at hplain
    obtain ⟨type, htype, hwallet⟩ := hplain
    obtain ⟨wallet, hwallet⟩ := Option.ne_none_iff_exists'.mp hwallet
    simp only [getAddress_multisig sdk accountNumber htype hwallet, computeMultisigAddress_eq,
      bind_eq_ok] at h
    obtain ⟨loaded, hload, h⟩ := h
    cases hkey : getPublicKey sdk accountNumber with
    | none =>
      rw [hkey] at h
      cases h
    | some publicKey =>
      simp only [hkey, bind_eq_ok, pure_eq_ok, Prod.mk.injEq] at h
      obtain ⟨hashed, hhash, rfl, rfl, rfl⟩ := h
      exact .multisig htype hwallet hkey hload hhash

theorem getAddress_hashed {sdk : Sdk} {accountNumber : Nat} {walletType : UInt8}
    {type : WalletType} {wallet : MultisigWallet} {publicKey : Hash} {bc loaded hashed : BocContext}
    (htype : WalletType.ofByte walletType = some type) (hwallet : multisigWallet type = some wallet)
    (hkey : getPublicKey sdk accountNumber = some publicKey) (hload : wallet.load bc = .ok loaded)
    (hhash : hashWallet sdk publicKey loaded = .ok hashed) (dc : DataContext) :
    getAddress sdk accountNumber walletType bc dc =
      .ok (hashed.hashes 0, hashed, writeKey dc publicKey) := by
  rw [getAddress_multisig sdk accountNumber htype hwallet, computeMultisigAddress_eq, hload, ok_bind,
    hkey]
  simp only [hhash, ok_bind]
  rfl

/-- The union has no part in an address, and gets at most the public key. -/
theorem getAddress_dataContext {sdk : Sdk} {accountNumber : Nat} {walletType : UInt8}
    {bc next : BocContext} {dc dc' : DataContext} {address : Hash}
    (h : getAddress sdk accountNumber walletType bc dc = .ok (address, next, dc')) :
    (dc' = dc ∨ ∃ publicKey, dc' = writeKey dc publicKey) ∧
      ∀ other, ∃ written,
        getAddress sdk accountNumber walletType bc other = .ok (address, next, written) := by
  cases getAddress_ok h with
  | plain _ same => exact ⟨Or.inl rfl, fun other => ⟨other, same _ other⟩⟩
  | multisig typed wallet_eq derived load hash =>
    exact ⟨Or.inr ⟨_, rfl⟩, fun other =>
      ⟨_, getAddress_hashed typed wallet_eq derived load hash other⟩⟩

/-! The two shapes of template. The code cell is the one behind the last of them. -/

/-- The largest depth that every template raises a slot to, whatever was in it. -/
def harmlessDepth (i : Nat) : Nat := if i = 1 ∨ i = 3 then 1 else 0

structure Template where
  cells : List RawCell
  keyCell : RawCell
  labelBits : Nat
  admitted : AdmittedFrom 0 cells.length cells
  ordinary : ∀ c ∈ cells, ¬ c.Pruned
  keyCell_last : cells[cells.length - 1]? = some keyCell
  length_bounds : 1 < cells.length ∧ cells.length ≤ 6
  keyCell_le : keyCell.data.length ≤ maxPublicKeyCellDataSize
  label_inside : labelBits % 8 ≠ 0 ∧ labelBits / 8 < keyCell.data.length
  raised : ∀ i : Fin cells.length, harmlessDepth i = 0 ∨ cells[i].refs ≠ []

def safeKeyCell : RawCell :=
  ⟨0x00, 0x41, 0xD8 :: List.replicate 31 0 ++ [0x04], [], by decide, no_refs⟩

def safeTemplate : Template where
  cells := [
    ⟨0x02, 0x01, [0x34], [0x06, 0x01], by decide, two_refs⟩,
    ⟨0x01, 0x01, [0xC0], [0x02], by decide, one_ref⟩,
    ⟨0x02, 0x03, [0xCF, 0x20], [0x05, 0x03], by decide, two_refs⟩,
    ⟨0x01, 0x01, [0xDE], [0x04], by decide, one_ref⟩,
    ⟨0x00, 0x03, [0xD0, 0x20], [], by decide, no_refs⟩,
    safeKeyCell]
  keyCell := safeKeyCell
  labelBits := 5
  admitted := by decide
  ordinary := by decide
  keyCell_last := by decide
  length_bounds := by decide
  keyCell_le := by decide
  label_inside := by decide
  raised := by decide

def bridgeKeyCell : RawCell :=
  ⟨0x00, 0x43, 0xD0 :: List.replicate 32 0 ++ [0x20], [], by decide, no_refs⟩

def bridgeTemplate : Template where
  cells := [
    ⟨0x02, 0x01, [0x34], [0x03, 0x01], by decide, two_refs⟩,
    ⟨0x01, 0x01, [0xC0], [0x02], by decide, one_ref⟩,
    bridgeKeyCell]
  keyCell := bridgeKeyCell
  labelBits := 10
  admitted := by decide
  ordinary := by decide
  keyCell_last := by decide
  length_bounds := by decide
  keyCell_le := by decide
  label_inside := by decide
  raised := by decide

def templateOf : WalletType → Template
  | .walletV3 | .everWallet | .safeMultisigWallet | .safeMultisigWallet24h
  | .setcodeMultisigWallet => safeTemplate
  | .bridgeMultisigWallet | .surfWallet | .multisig2 | .multisig21 => bridgeTemplate

def loadedWallet (template : Template) (wallet : MultisigWallet) (bc : BocContext) : BocContext :=
  { storeCells 0 (serializeCells template.cells) template.cells { bc with cellsCount := 0 } with
    hashes := Function.update bc.hashes template.cells.length wallet.codeHash
    cellDepth := Function.update bc.cellDepth template.cells.length (UInt8.ofNat wallet.cellDepth)
    publicKeyCellIndex := template.cells.length - 1
    publicKeyLabelSizeBits := template.labelBits }

theorem loadWallet_eq {type : WalletType} {wallet : MultisigWallet}
    (h : multisigWallet type = some wallet) (bc : BocContext) :
    loadWallet wallet.wallet wallet.codeHash wallet.cellDepth bc =
      .ok (loadedWallet (templateOf type) wallet bc) := by
  cases type <;> cases h <;> rfl

/-- The context with the data of the public key cell copied to its buffer. -/
def copiedWallet (template : Template) (wallet : MultisigWallet) (bc : BocContext) : BocContext :=
  { loadedWallet template wallet bc with
    publicKeyCellData := template.keyCell.data ++
      bc.publicKeyCellData.drop template.keyCell.data.length }

theorem length_copiedWallet (template : Template) (wallet : MultisigWallet) {bc : BocContext}
    (h : bc.publicKeyCellData.length = maxPublicKeyCellDataSize) :
    (copiedWallet template wallet bc).publicKeyCellData.length = maxPublicKeyCellDataSize := by
  have hle := template.keyCell_le
  simp only [copiedWallet, List.length_append, List.length_drop, h]
  omega

theorem MultisigWallet.load_eq {type : WalletType} {wallet : MultisigWallet}
    (h : multisigWallet type = some wallet) {bc : BocContext}
    (hlength : bc.publicKeyCellData.length = maxPublicKeyCellDataSize) :
    wallet.load bc = .ok (copiedWallet (templateOf type) wallet bc) := by
  have hstore : storeMany bc.publicKeyCellData 0 (templateOf type).keyCell.data =
      .ok (copiedWallet (templateOf type) wallet bc).publicKeyCellData := by
    rw [storeMany_eq_ok, hlength]
    refine ⟨?_, ?_⟩
    · rw [Nat.zero_add]
      exact (templateOf type).keyCell_le
    · rw [List.take_zero, List.nil_append, Nat.zero_add]
      rfl
  have hrest : wallet.load bc = (do
      let publicKeyCellData ← storeMany bc.publicKeyCellData 0 (templateOf type).keyCell.data
      pure { loadedWallet (templateOf type) wallet bc with publicKeyCellData }) := by
    unfold MultisigWallet.load
    rw [loadWallet_eq h, ok_bind]
    cases type <;> cases h <;> rfl
  rw [hrest, hstore]
  rfl

/-- Without a key there is no address. -/
theorem getAddress_noKey {sdk : Sdk} {accountNumber : Nat}
    (hkey : getPublicKey sdk accountNumber = none) {walletType : UInt8} {type : WalletType}
    (htype : WalletType.ofByte walletType = some type) (dc : DataContext) :
    getAddress sdk accountNumber walletType BocContext.zero dc =
      .error (.thrown .getPublicKeyFailed) := by
  cases hwallet : multisigWallet type with
  | some wallet =>
    have hload := MultisigWallet.load_eq hwallet
      (show BocContext.zero.publicKeyCellData.length = _ from List.length_replicate)
    rw [getAddress_multisig sdk accountNumber htype hwallet, computeMultisigAddress_eq, hload,
      ok_bind, hkey]
  | none =>
    unfold getAddress
    rw [htype]
    cases type with
    | walletV3 =>
      simp only [computeWalletV3Address, hkey]
      rfl
    | everWallet =>
      simp only [computeEverWalletAddress, hkey]
      rfl
    | _ => cases hwallet

end EverscaleLedger.Properties
