import EverscaleLedger.Properties.AddressInputs
import EverscaleLedger.Properties.CellTree
import EverscaleLedger.Properties.KeyInsertion

/-! The address of a wallet is the representation hash of its `StateInit`: the code,
of which hash and depth are known, and a data tree with the public key. -/
namespace EverscaleLedger.Properties

open Library Source

/-! The tree. -/

/-- The code of a wallet. -/
def codeDigest : WalletType → Digest
  | .walletV3 => ⟨walletV3CodeHash, 0⟩
  | .everWallet => ⟨everWalletCodeHash, 3⟩
  | .safeMultisigWallet => ⟨safeMultisigWalletCodeHash, 12⟩
  | .safeMultisigWallet24h => ⟨safeMultisigWallet24hCodeHash, 12⟩
  | .setcodeMultisigWallet => ⟨setcodeMultisigWalletCodeHash, 13⟩
  | .bridgeMultisigWallet => ⟨bridgeMultisigWalletCodeHash, 11⟩
  | .surfWallet => ⟨surfWalletCodeHash, 12⟩
  | .multisig2 => ⟨multisig2WalletCodeHash, 12⟩
  | .multisig21 => ⟨multisig21WalletCodeHash, 10⟩

/-- No split depth, not special, no libraries: `0x34` when completed. -/
def stateInit (code : Digest) (data : CellTree) : CellTree :=
  .cell [false, false, true, true, false] [.known code, data]

/-- The tree of the last reference of a template's root. -/
def Template.data (template : Template) : CellTree :=
  treeFrom ⟨zeroHash, 0⟩ template.cells template.cells.length
    ((template.cells.headD template.keyCell).refs.getLastD 0).toNat

/-- The data of a new wallet: zero seqno, wallet id and key; key and zero timestamp; or
the template's, with the key in the leaf of the zero key of its dictionary. -/
def walletData (publicKey : Hash) : WalletType → Option CellTree
  | .walletV3 => some (.cell (Bits.ofNat 32 0 ++ Bits.ofNat 32 walletId ++
      Bits.ofBytes publicKey.toList) [])
  | .everWallet => some (.cell (Bits.ofBytes publicKey.toList ++ Bits.ofNat 64 0) [])
  | type =>
      match (templateOf type).data with
      | .cell bits [dictionary] => do
          let dictionary ← dictionary.writeLeaf (Bits.ofBytes publicKey.toList)
            (List.replicate 64 false)
          some (.cell bits [dictionary])
      | _ => none

/-! The cell of the key. -/

def Template.label (template : Template) : List Bool :=
  (Bits.ofBytes template.keyCell.data).take template.labelBits

/-- The cell of the key, with a key in it. -/
def Template.keyed (template : Template) (publicKey : Hash) : RawCell :=
  .ordinary (template.label ++ Bits.ofBytes publicKey.toList) []
    (by
      have hle : template.keyCell.data.length ≤ 36 := template.keyCell_le
      rw [List.length_append, label, List.length_take, Bits.length_ofBytes, Bits.length_ofBytes,
        Vector.length_toList]
      omega)
    no_refs_lt

theorem Template.keyed_encodes (template : Template) (publicKey : Hash) :
    (template.keyed publicKey).Encodes (template.label ++ Bits.ofBytes publicKey.toList) [] :=
  RawCell.ordinary_encodes _ _

def Template.keyedCells (template : Template) (publicKey : Hash) : List RawCell :=
  template.cells.set (template.cells.length - 1) (template.keyed publicKey)

theorem Template.keyed_canonical (template : Template) (publicKey : Hash) : (template.keyed publicKey).Canonical := by
  have hencodes := template.keyed_encodes publicKey
  refine ⟨rfl, by rw [hencodes.refs]; decide, ?_⟩
  rw [hencodes.bits_eq, hencodes.refs]
  exact hencodes

/-- A keyed cell is the template's, or the last one with the key. -/
theorem Template.keyedCells_get {template : Template} {publicKey : Hash} {i : Nat} {c : RawCell}
    (hc : (template.keyedCells publicKey)[i]? = some c) :
    (i ≠ template.cells.length - 1 ∧ template.cells[i]? = some c) ∨
      i = template.cells.length - 1 ∧ c = template.keyed publicKey := by
  unfold keyedCells at hc
  by_cases hlast : i = template.cells.length - 1
  · subst hlast
    have hlt : template.cells.length - 1 < template.cells.length := by
      have hbounds := template.length_bounds
      omega
    rw [List.getElem?_set_self hlt] at hc
    exact Or.inr ⟨rfl, (Option.some.inj hc).symm⟩
  · rw [List.getElem?_set_ne (Ne.symm hlast)] at hc
    exact Or.inl ⟨hlast, hc⟩

/-- What the two templates have in common: canonical cells, and a leaf that has room
for a label, a key and a completion tag. -/
structure Template.TakesKey (template : Template) : Prop where
  size : 8 * template.keyCell.data.length =
    template.labelBits + 256 + (8 - template.labelBits % 8)
  keyCell_d1 : template.keyCell.d1 = 0
  keyCell_d2 : template.keyCell.d2 = d2OfBitLen (template.labelBits + 256)
  keyCell_refs : template.keyCell.refs = []
  canonical : ∀ c ∈ template.cells, c.Canonical
  refs_le : ∀ c ∈ template.cells, ∀ r ∈ c.refs, r.toNat ≤ template.cells.length

instance (c : RawCell) : Decidable c.Canonical :=
  decidable_of_iff (c.d1 = UInt8.ofNat c.refs.length ∧ c.refs.length ≤ maxReferencesCount ∧
      c.d2.toNat = c.bits.length / 8 + (c.bits.length + 7) / 8 ∧
      c.data = Bits.pack (Bits.completed c.bits))
    ⟨fun h => ⟨h.1, h.2.1, ⟨h.2.2.1, h.2.2.2, rfl⟩⟩,
      fun h => ⟨h.d1, h.refs_le, h.encodes.d2, h.encodes.data⟩⟩

theorem safeTemplate_takesKey : safeTemplate.TakesKey :=
  ⟨by decide, by decide, by decide, by decide, by decide +kernel, by decide⟩

theorem bridgeTemplate_takesKey : bridgeTemplate.TakesKey :=
  ⟨by decide, by decide, by decide, by decide, by decide +kernel, by decide⟩

theorem templateOf_takesKey (type : WalletType) : (templateOf type).TakesKey := by
  cases type <;> first | exact safeTemplate_takesKey | exact bridgeTemplate_takesKey

namespace Template.TakesKey

variable {template : Template} (h : template.TakesKey) (wallet : MultisigWallet) (publicKey : Hash)

include h

theorem length_label : template.label.length = template.labelBits := by
  have hsize := h.size
  rw [Template.label, List.length_take, Bits.length_ofBytes]
  omega

/-- The key is inserted behind the label, and the leaf is completed. -/
theorem insertPublicKey_eq : ∃ data,
    insertPublicKey (copiedWallet template wallet BocContext.zero) publicKey = .ok data ∧
    data.length = maxPublicKeyCellDataSize ∧
    data.take template.keyCell.data.length = (template.keyed publicKey).data := by
  have hsize := h.size
  have hle : template.keyCell.data.length ≤ 36 := template.keyCell_le
  have hoff := template.label_inside.1
  have hlength : (copiedWallet template wallet BocContext.zero).publicKeyCellData.length = 36 :=
    length_copiedWallet template wallet List.length_replicate
  have hkey : publicKey.toList.length = 32 := Vector.length_toList
  obtain ⟨data, hinsert, hdata, hbits⟩ := @insertPublicKey_bits
    (copiedWallet template wallet BocContext.zero) publicKey hlength hoff (by
      change template.labelBits < 32
      omega)
  refine ⟨data, hinsert, hdata, ?_⟩
  have hlabel : (Bits.ofBytes (copiedWallet template wallet
      BocContext.zero).publicKeyCellData).take template.labelBits = template.label := by
    have hcopied : (copiedWallet template wallet BocContext.zero).publicKeyCellData =
        template.keyCell.data ++ BocContext.zero.publicKeyCellData.drop
          template.keyCell.data.length := rfl
    rw [hcopied, Bits.ofBytes_append, List.take_append_of_le_length]
    · rfl
    · rw [Bits.length_ofBytes]
      omega
  change Bits.ofBytes data = (Bits.ofBytes (copiedWallet template wallet
    BocContext.zero).publicKeyCellData).take template.labelBits ++ _ ++ _ :: List.replicate
      (7 - template.labelBits % 8) false ++ _ at hbits
  have hmod : (template.label ++ Bits.ofBytes publicKey.toList).length % 8 =
      template.labelBits % 8 := by
    rw [List.length_append, h.length_label, Bits.length_ofBytes, hkey]
    omega
  apply Bits.ofBytes_inj
  rw [(template.keyed_encodes publicKey).ofBytes_data, Bits.completed, hmod, if_neg hoff,
    Bits.ofBytes_take, hbits, hlabel]
  apply List.take_left'
  rw [List.length_append, List.length_append, h.length_label, Bits.length_ofBytes, hkey,
    List.length_cons, List.length_replicate]
  omega

theorem keyedCells_canonical : ∀ c ∈ template.keyedCells publicKey, c.Canonical := by
  intro c hc
  obtain hc | rfl := List.mem_or_eq_of_mem_set hc
  · exact h.canonical c hc
  · exact template.keyed_canonical publicKey

/-- The hash of a wallet is that of the tree of the keyed cells. -/
theorem hashWallet_eq (sdk : Sdk) (hdepth : wallet.cellDepth < 250) : ∃ hashed,
    hashWallet sdk publicKey (copiedWallet template wallet BocContext.zero) = .ok hashed ∧
    hashed.hashes 0 = ((treeFrom ⟨wallet.codeHash, wallet.cellDepth⟩ (template.keyedCells publicKey)
      template.cells.length 0).digest sdk.sha256).hash := by
  obtain ⟨data, hinsert, hlength, hdata⟩ := h.insertPublicKey_eq wallet publicKey
  have hbounds := template.length_bounds
  have hforward := template.admitted.forward
  have hcount : (copiedWallet template wallet BocContext.zero).publicKeyCellIndex + 1 =
      template.cells.length := Nat.sub_add_cancel (Nat.le_of_lt hbounds.1)
  obtain ⟨bc, hbc⟩ : ∃ bc, { copiedWallet template wallet BocContext.zero with
      publicKeyCellData := data } = bc := ⟨_, rfl⟩
  have hholds := copiedWallet_holds template wallet harmless_zero.depths data
  rw [hbc] at hholds
  have hkeyData : bc.publicKeyCellData = data := hbc ▸ rfl
  refine ⟨digestCells sdk template.cells 0 template.cells.length bc, ?_, ?_⟩
  · unfold hashWallet
    rw [hinsert, ok_bind, hcount, hbc, calcCellHashes_eq_ok hforward (Nat.zero_le _)
      (fun i c _ hc => hholds.holds i c hc) (Nat.le_refl _) (Nat.le_trans hbounds.2 (by decide))]
    refine ⟨fun i c _ _ hc => Or.inr ⟨fun r hr => ?_, fun hkey => ?_⟩, rfl⟩
    · have hle := h.refs_le c (List.mem_of_getElem? hc) r hr
      exact Nat.lt_of_le_of_lt (Nat.le_trans hle hbounds.2) (by decide)
    · rw [hkey.2, hholds.keyIndex, template.keyCell_last] at hc
      obtain rfl := Option.some.inj hc
      rw [hkeyData, hlength]
      exact template.keyCell_le
  have hsame := digestCells_sameCells sdk template.cells 0 template.cells.length bc
  have hdigested := fun i (c : RawCell) (hi : i < template.cells.length)
    (hc : template.cells[i]? = some c) =>
      digestCells_digested sdk hforward bc (Nat.zero_le i) hi hc
  have hcode := @digestCells_outside sdk template.cells 0 _ _ bc
    (Or.inr (Nat.le_refl template.cells.length))
  generalize digestCells sdk template.cells 0 template.cells.length bc = hashed at *
  have hkeyIndex : hashed.publicKeyCellIndex = template.cells.length - 1 :=
    hsame.publicKeyCellIndex.trans hholds.keyIndex
  have hzero : ∀ i < template.cells.length, bc.cellDepth i = 0 := by
    intro i hi
    rw [← hbc]
    exact Function.update_of_ne (Nat.ne_of_lt hi) _ _
  have hkeyed : (template.keyedCells publicKey).length = template.cells.length :=
    List.length_set
  refine (treeFrom_slotHolds (h.keyedCells_canonical publicKey) ?_ ?_ ?_ (Nat.zero_le _) ?_ ?_).1
  · intro i c hc r hr
    rw [hkeyed]
    obtain ⟨-, hc⟩ | ⟨-, rfl⟩ := template.keyedCells_get hc
    · exact ⟨hforward.later i c hc r hr, h.refs_le c (List.mem_of_getElem? hc) r hr⟩
    · rw [(template.keyed_encodes publicKey).refs] at hr
      cases hr
  · intro i c hc
    have hi : i < template.cells.length := hkeyed ▸ (List.getElem?_eq_some_iff.mp hc).1
    obtain ⟨hne, hc⟩ | ⟨rfl, rfl⟩ := template.keyedCells_get hc
    · obtain ⟨hhash, hcellDepth⟩ := hdigested i c hi hc
      have hordinary := template.ordinary c (List.mem_of_getElem? hc)
      have hown : c.hashedData hashed i = c.data :=
        if_neg fun hkey => hne (hkey.2.trans hkeyIndex)
      rw [RawCell.hashIn, if_neg hordinary, RawCell.representation, hown] at hhash
      rw [RawCell.depthIn, if_neg hordinary, hzero i hi] at hcellDepth
      exact ⟨hhash, hcellDepth⟩
    · obtain ⟨hhash, hcellDepth⟩ := hdigested _ _ hi template.keyCell_last
      have hordinary := template.ordinary _ (List.mem_of_getElem? template.keyCell_last)
      have hown : template.keyCell.hashedData hashed (template.cells.length - 1) =
          (template.keyed publicKey).data := by
        rw [RawCell.hashedData, if_pos ⟨by rw [hkeyIndex]; omega, hkeyIndex.symm⟩,
          hsame.publicKeyCellData, hkeyData, hdata]
      have hd2 : (template.keyed publicKey).d2 = template.keyCell.d2 := by
        rw [h.keyCell_d2]
        change d2OfBitLen (template.label ++ Bits.ofBytes publicKey.toList).length = _
        rw [List.length_append, h.length_label, Bits.length_ofBytes, Vector.length_toList]
      rw [RawCell.hashIn, if_neg hordinary, RawCell.representation, hown, h.keyCell_d1, ← hd2,
        RawCell.depthBytes, RawCell.hashBytes, h.keyCell_refs] at hhash
      rw [RawCell.depthIn, if_neg hordinary, hzero _ hi, h.keyCell_refs] at hcellDepth
      exact ⟨hhash, hcellDepth⟩
  · rw [hkeyed]
    obtain ⟨hhash, hdepths⟩ := hcode
    have hcodeHash : bc.hashes template.cells.length = wallet.codeHash := by
      rw [← hbc]
      exact Function.update_self ..
    have hcodeDepth : bc.cellDepth template.cells.length = UInt8.ofNat wallet.cellDepth := by
      rw [← hbc]
      exact Function.update_self ..
    refine ⟨hhash.trans hcodeHash, ?_⟩
    rw [hdepths, hcodeDepth, UInt8.toNat_ofNat']
    exact Nat.mod_eq_of_lt (by omega)
  · rw [hkeyed, Nat.zero_add]
  · change wallet.cellDepth + template.cells.length < 256
    omega

end Template.TakesKey

/-! The two shapes. -/

/-- The data of the first three wallets: the dictionary has the leaf of the key, and one
that refers to a stub. -/
def safeData (leaf : List Bool) : CellTree :=
  .cell [true] [.cell [true, true, false, false, true, true, true, true, false, false] [
    .cell leaf [],
    .cell [true, true, false, true, true, true] [
      .cell [true, true, false, true, false, false, false, false, false, false] []]]]

/-- The data of the others: the leaf of the key is the dictionary. -/
def bridgeData (leaf : List Bool) : CellTree := .cell [true] [.cell leaf []]

def dataOf (leaf : List Bool) : WalletType → CellTree
  | .walletV3 | .everWallet | .safeMultisigWallet | .safeMultisigWallet24h
  | .setcodeMultisigWallet => safeData leaf
  | .bridgeMultisigWallet | .surfWallet | .multisig2 | .multisig21 => bridgeData leaf

set_option maxRecDepth 4000 in
theorem walletData_multisig {type : WalletType} {wallet : MultisigWallet}
    (h : multisigWallet type = some wallet) (publicKey : Hash) :
    walletData publicKey type = some (dataOf ((templateOf type).label ++
      Bits.ofBytes publicKey.toList) type) := by
  cases type <;> cases h <;> rfl

theorem treeFrom_keyedCells {type : WalletType} {wallet : MultisigWallet}
    (h : multisigWallet type = some wallet) (publicKey : Hash) (code : Digest) :
    treeFrom code ((templateOf type).keyedCells publicKey) (templateOf type).cells.length 0 =
      stateInit code (dataOf ((templateOf type).keyed publicKey).bits type) := by
  cases type <;> cases h <;> rfl

theorem multisig_codeDigest {type : WalletType} {wallet : MultisigWallet}
    (h : multisigWallet type = some wallet) :
    codeDigest type = ⟨wallet.codeHash, wallet.cellDepth⟩ ∧ wallet.cellDepth < 250 := by
  cases type <;> cases h <;> exact ⟨rfl, by decide⟩

/-! The two wallets whose representations are laid out by hand. -/

/-- A cell of forty bytes. -/
theorem dataCell_digest (sha256 : List UInt8 → Hash) {data : List UInt8} (h : data.length = 40) :
    (CellTree.cell (Bits.ofBytes data) []).digest sha256 = ⟨sha256 (dataCellBuffer data), 0⟩ := by
  have hlabel : CellTree.label (Bits.ofBytes data) 0 = ⟨0x00, 0x50, data⟩ := by
    rw [CellTree.label, Bits.completed, if_pos (by rw [Bits.length_ofBytes]; omega),
      Bits.pack_ofBytes, Bits.length_ofBytes, h]
    rfl
  rw [CellTree.digest_cell, List.length_nil, hlabel]
  simp [representationOf, dataCellBuffer, depthOf]

theorem stateInit_digest (sha256 : List UInt8 → Hash) (code : Digest) {data : CellTree}
    {dataHash : Hash} (h : data.digest sha256 = ⟨dataHash, 0⟩) {depths : Nat}
    (hdepths : writeUintBE 4 depths = writeUintBE 2 code.depth ++ writeUintBE 2 0) :
    ((stateInit code data).digest sha256).hash =
      sha256 (stateInitBuffer depths code.hash dataHash) := by
  have hlabel : CellTree.label [false, false, true, true, false] 2 = ⟨0x02, 0x01, [0x34]⟩ := by rfl
  rw [stateInit, CellTree.digest_cell]
  simp only [List.length_cons, List.length_nil, Nat.zero_add, hlabel, List.map_cons, List.map_nil, h,
    CellTree.digest]
  unfold representationOf stateInitBuffer
  rw [hdepths]
  simp

/-- What `compute_wallet_v3_address` and `compute_ever_wallet_address` hash. -/
theorem plainWallet_address {sdk : Sdk} {accountNumber : Nat} {publicKey : Hash}
    (hkey : getPublicKey sdk accountNumber = some publicKey) {type : WalletType}
    (hplain : multisigWallet type = none) {walletType : UInt8}
    (htype : WalletType.ofByte walletType = some type) (bc : BocContext) (dc : DataContext) :
    ∃ data, walletData publicKey type = some data ∧
      getAddress sdk accountNumber walletType bc dc =
        .ok (((stateInit (codeDigest type) data).digest sdk.sha256).hash, bc, dc) := by
  have hlength : publicKey.toList.length = 32 := Vector.length_toList
  unfold getAddress
  rw [htype]
  cases type with
  | walletV3 =>
    have hdata := @dataCell_digest sdk.sha256 (writeUintBE 8 walletId ++ publicKey.toList)
      (by rw [List.length_append, hlength]; rfl)
    rw [Bits.ofBytes_append, show Bits.ofBytes (writeUintBE 8 walletId) =
      Bits.ofNat 32 0 ++ Bits.ofNat 32 walletId by decide] at hdata
    refine ⟨_, rfl, ?_⟩
    rw [@stateInit_digest sdk.sha256 (codeDigest .walletV3) _ _ hdata 0 (by decide)]
    simp only [computeWalletV3Address, hkey, ok_bind]
    rfl
  | everWallet =>
    have hdata := @dataCell_digest sdk.sha256 (publicKey.toList ++ writeUintBE 8 0)
      (by rw [List.length_append, hlength]; rfl)
    rw [Bits.ofBytes_append, show Bits.ofBytes (writeUintBE 8 0) = Bits.ofNat 64 0 by decide]
      at hdata
    refine ⟨_, rfl, ?_⟩
    rw [@stateInit_digest sdk.sha256 (codeDigest .everWallet) _ _ hdata 0x30000 (by decide)]
    simp only [computeEverWalletAddress, hkey, ok_bind]
    rfl
  | _ => cases hplain

/-- The template is the cells behind a header of eight bytes. -/
theorem template_serialized {type : WalletType} {wallet : MultisigWallet}
    (h : multisigWallet type = some wallet) :
    wallet.wallet.drop 8 = serializeCells (templateOf type).cells := by
  cases type <;> cases h <;> rfl

theorem getAddress_digest {sdk : Sdk} {accountNumber : Nat} {publicKey : Hash}
    (hkey : getPublicKey sdk accountNumber = some publicKey) {walletType : UInt8}
    {type : WalletType} (htype : WalletType.ofByte walletType = some type) (dc : DataContext) :
    ∃ (data : CellTree) (left : BocContext) (written : DataContext),
      walletData publicKey type = some data ∧
      getAddress sdk accountNumber walletType BocContext.zero dc =
        .ok (((stateInit (codeDigest type) data).digest sdk.sha256).hash, left, written) := by
  cases hwallet : multisigWallet type with
  | none =>
    obtain ⟨data, hdata, haddress⟩ := plainWallet_address hkey hwallet htype BocContext.zero dc
    exact ⟨data, _, _, hdata, haddress⟩
  | some wallet =>
    obtain ⟨hcode, hdepth⟩ := multisig_codeDigest hwallet
    have hload := MultisigWallet.load_eq hwallet
      (show BocContext.zero.publicKeyCellData.length = _ from List.length_replicate)
    obtain ⟨hashed, hhash, hroot⟩ :=
      (templateOf_takesKey type).hashWallet_eq wallet publicKey sdk hdepth
    refine ⟨_, hashed, writeKey dc publicKey, walletData_multisig hwallet publicKey, ?_⟩
    rw [getAddress_hashed htype hwallet hkey hload hhash dc, hroot, treeFrom_keyedCells hwallet,
      ((templateOf type).keyed_encodes publicKey).bits_eq, hcode]

/-- The address of every wallet, from a cleared `boc_context`, is the representation
hash of its `StateInit`. -/
theorem address_of_stateInit {sdk : Sdk} {accountNumber : Nat} {publicKey : Hash}
    (hkey : getPublicKey sdk accountNumber = some publicKey) {walletType : UInt8}
    {type : WalletType} (htype : WalletType.ofByte walletType = some type) (dc : DataContext) :
    (∀ wallet, multisigWallet type = some wallet →
      wallet.wallet.drop 8 = serializeCells (templateOf type).cells) ∧
    ∃ (data : CellTree) (left : BocContext) (written : DataContext),
      walletData publicKey type = some data ∧
      getAddress sdk accountNumber walletType BocContext.zero dc =
        .ok (((stateInit (codeDigest type) data).digest sdk.sha256).hash, left, written) :=
  ⟨fun _ => template_serialized, getAddress_digest hkey htype dc⟩

theorem address_of_stateInit_surfWallet :
    ∃ publicKey : Hash, getPublicKey testSdk 0 = some publicKey ∧
      WalletType.ofByte 6 = some .surfWallet ∧
      (∀ wallet, multisigWallet .surfWallet = some wallet →
        wallet.wallet.drop 8 = serializeCells (templateOf .surfWallet).cells) ∧
      ∃ (data : CellTree) (left : BocContext) (written : DataContext),
        walletData publicKey .surfWallet = some data ∧
        getAddress testSdk 0 6 BocContext.zero Memory.zero =
          .ok (((stateInit (codeDigest .surfWallet) data).digest testSdk.sha256).hash, left,
            written) := by
  obtain ⟨publicKey, hkey⟩ := Option.isSome_iff_exists.mp
    (show (getPublicKey testSdk 0).isSome from by decide)
  exact ⟨publicKey, hkey, by decide, address_of_stateInit hkey (by decide) Memory.zero⟩

end EverscaleLedger.Properties
