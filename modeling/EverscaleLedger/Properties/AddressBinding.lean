import EverscaleLedger.Properties.SignedCells
import EverscaleLedger.Properties.StateInit

/-! What an address says about its wallet. The trees of two `StateInit`s with one hash agree
down to the leaf of the key, so that key and wallet type can be told from the address, unless
the hash function collides on what was hashed for the two. -/
namespace EverscaleLedger.Properties

open Library Source

namespace CellTree

/-! Trees as nodes of a hash store. A digest has the depth cut to the two bytes that are
hashed of it. -/

def slot (sha256 : List UInt8 → Hash) (tree : CellTree) : Hash × UInt16 :=
  ((tree.digest sha256).hash, UInt16.ofNat (tree.digest sha256).depth)

def depthBytes (depth : UInt16) : List UInt8 := writeUintBE 2 depth.toNat

/-- The bytes that are hashed for an ordinary cell. -/
def encode (bits : List Bool) (children : List (Hash × UInt16)) : List UInt8 :=
  [UInt8.ofNat children.length, d2OfBitLen bits.length] ++
    (Bits.pack (Bits.completed bits) ++ digestBlocks depthBytes children)

/-- The sizes that two descriptor bytes can announce. -/
def Fits (bits : List Bool) (children : List (Hash × UInt16)) : Prop :=
  bits.length < 1024 ∧ children.length < 8

theorem length_depthBytes (depth : UInt16) : (depthBytes depth).length = 2 := rfl

theorem depthBytes_injective : Function.Injective depthBytes := by
  intro depth depth' h
  simp only [depthBytes, writeUintBE_two, List.cons.injEq, and_true] at h
  obtain ⟨hhigh, hlow⟩ := h
  have hhigh := congrArg UInt8.toNat hhigh
  have hlow := congrArg UInt8.toNat hlow
  rw [UInt8.toNat_ofNat', UInt8.toNat_ofNat'] at hhigh hlow
  have hdepth := depth.toNat_lt
  have hdepth' := depth'.toNat_lt
  apply UInt16.toNat_inj.mp
  omega

/-- The second descriptor byte and the data give the bits back. -/
theorem bits_of_label {bits bits' : List Bool} (h : bits.length < 1024) (h' : bits'.length < 1024)
    (hd2 : d2OfBitLen bits.length = d2OfBitLen bits'.length)
    (hdata : Bits.pack (Bits.completed bits) = Bits.pack (Bits.completed bits')) : bits = bits' := by
  have hcell := (@RawCell.ordinary_encodes bits [] h no_refs_lt).bits_eq
  have hcell' := (@RawCell.ordinary_encodes bits' [] h' no_refs_lt).bits_eq
  have hsame : ∀ c c' : RawCell, c.d2 = c'.d2 → c.data = c'.data → c.bits = c'.bits := by
    intro c c' hcd2 hcdata
    rw [RawCell.bits, RawCell.bits, hcd2, hcdata]
  rw [← hcell, ← hcell']
  exact hsame _ _ hd2 hdata

theorem encode_injective {bits bits' : List Bool} {children children' : List (Hash × UInt16)}
    (hfits : Fits bits children) (hfits' : Fits bits' children')
    (h : encode bits children = encode bits' children') : bits = bits' ∧ children = children' := by
  simp only [encode, List.cons_append, List.nil_append, List.cons.injEq] at h
  obtain ⟨hcount, hd2, hbytes⟩ := h
  have hcount : children.length = children'.length := by
    have hcount := congrArg UInt8.toNat hcount
    have hlt := hfits.2
    have hlt' := hfits'.2
    rw [UInt8.toNat_ofNat', UInt8.toNat_ofNat'] at hcount
    omega
  have hsize : (Bits.pack (Bits.completed bits)).length =
      (Bits.pack (Bits.completed bits')).length := by
    have hsize := congrArg UInt8.toNat hd2
    rw [d2OfBitLen_toNat hfits.1, d2OfBitLen_toNat hfits'.1] at hsize
    rw [Bits.length_pack, Bits.length_pack, Bits.length_completed, Bits.length_completed]
    omega
  obtain ⟨hdata, hblocks⟩ := List.append_inj hbytes hsize
  exact ⟨bits_of_label hfits.1 hfits'.1 hd2 hdata,
    digestBlocks_injective length_depthBytes depthBytes_injective hcount hblocks⟩

def treeScheme (sha256 : List UInt8 → Hash) :
    HashScheme (List Bool) (List UInt8) (Hash × UInt16) Hash where
  Fits := Fits
  encode := encode
  hash := sha256
  hashOf := Prod.fst
  encode_injective := encode_injective

/-- A cell of a size that can be serialized. -/
def node : CellTree → Option (List Bool × List CellTree)
  | cell bits children =>
      if bits.length < 1024 ∧ children.length < 8 then some (bits, children) else none
  | known _ => none

theorem node_eq_some {tree : CellTree} {bits : List Bool} {children : List CellTree} :
    tree.node = some (bits, children) ↔
      tree = cell bits children ∧ bits.length < 1024 ∧ children.length < 8 := by
  cases tree with
  | cell bits' children' =>
    rw [node, Option.ite_none_right_eq_some, Option.some.injEq, Prod.mk.injEq, cell.injEq]
    constructor
    · rintro ⟨hsizes, rfl, rfl⟩
      exact ⟨⟨rfl, rfl⟩, hsizes⟩
    · rintro ⟨⟨rfl, rfl⟩, hsizes⟩
      exact ⟨hsizes, rfl, rfl⟩
  | known digest => simp [node]

theorem digest_hash (sha256 : List UInt8 → Hash) {bits : List Bool} {children : List CellTree}
    (hbits : bits.length < 1024) (hchildren : children.length < 8) :
    ((cell bits children).digest sha256).hash =
      sha256 (encode bits (children.map (slot sha256))) := by
  have hd1 : UInt8.ofNat ((UInt8.ofNat children.length).toNat &&& 0b00011111) =
      UInt8.ofNat children.length := by
    rw [UInt8.toNat_ofNat_of_lt' (by simp only [UInt8.size]; omega)]
    rw [show 0b00011111 = 2 ^ 5 - 1 from rfl, Nat.and_two_pow_sub_one_eq_mod, Nat.mod_eq_of_lt (by omega)]
  have hd2 : UInt8.ofNat (bits.length / 8 + (bits.length + 7) / 8) = d2OfBitLen bits.length := by
    rw [← d2OfBitLen_toNat hbits, UInt8.ofNat_toNat]
  have hdepth : ∀ depth : Nat, writeUintBE 2 depth = depthBytes (UInt16.ofNat depth) := by
    intro depth
    simp only [depthBytes, writeUintBE_two, UInt16.toNat_ofNat', List.cons.injEq, and_true]
    constructor
    · apply UInt8.toNat_inj.mp
      rw [UInt8.toNat_ofNat', UInt8.toNat_ofNat']
      omega
    · apply UInt8.toNat_inj.mp
      rw [UInt8.toNat_ofNat', UInt8.toNat_ofNat']
      omega
  have hblocks : ((children.map (digest sha256)).flatMap fun child => writeUintBE 2 child.depth) ++
      ((children.map (digest sha256)).flatMap fun child => child.hash.toList) =
        digestBlocks depthBytes (children.map (slot sha256)) := by
    simp [digestBlocks, slot, hdepth, List.flatMap_map, Function.comp_def]
  rw [digest_cell]
  unfold representationOf label encode
  rw [hd1, hd2, List.append_assoc, List.append_assoc, hblocks, List.length_map]

/-- Every tree, with the trees of its children below it. -/
def store (sha256 : List UInt8 → Hash) : HashStore (treeScheme sha256) CellTree where
  node := node
  digest := slot sha256
  fits hnode := by
    obtain ⟨-, hbits, hchildren⟩ := node_eq_some.mp hnode
    exact ⟨hbits, by rwa [List.length_map]⟩
  hashed hnode := by
    obtain ⟨rfl, hbits, hchildren⟩ := node_eq_some.mp hnode
    exact digest_hash sha256 hbits hchildren

end CellTree

/-! Wallets. -/

/-- Code hashes tell the wallet types apart. -/
theorem codeDigest_inj {type type' : WalletType}
    (h : (codeDigest type).hash = (codeDigest type').hash) : type = type' := by
  have hfirst := congrArg (fun hash : Hash => hash[0].toNat) h
  cases type <;> cases type' <;> first | rfl | cases hfirst

/-- What was hashed for two trees collides. -/
def TreesCollide (sha256 : List UInt8 → Hash) (tree tree' : CellTree) : Prop :=
  (CellTree.store sha256).Collides (CellTree.store sha256) tree tree'

/-- Where the key is in a `StateInit`. -/
def keyPath : WalletType → List Nat
  | .walletV3 | .everWallet => [1]
  | .safeMultisigWallet | .safeMultisigWallet24h | .setcodeMultisigWallet => [1, 0, 0]
  | .bridgeMultisigWallet | .surfWallet | .multisig2 | .multisig21 => [1, 0]

/-- The bits of the cell with the key. -/
def keyBits (publicKey : Hash) : WalletType → List Bool
  | .walletV3 => Bits.ofNat 32 0 ++ Bits.ofNat 32 walletId ++ Bits.ofBytes publicKey.toList
  | .everWallet => Bits.ofBytes publicKey.toList ++ Bits.ofNat 64 0
  | type => (templateOf type).label ++ Bits.ofBytes publicKey.toList

theorem keyBits_inj {publicKey publicKey' : Hash} {type : WalletType}
    (h : keyBits publicKey type = keyBits publicKey' type) : publicKey = publicKey' := by
  have hbits : Bits.ofBytes publicKey.toList = Bits.ofBytes publicKey'.toList := by
    cases type with
    | everWallet => exact List.append_cancel_right h
    | _ => exact List.append_cancel_left h
  exact Vector.toList_inj.mp (Bits.ofBytes_inj hbits)

theorem keyBits_length (publicKey : Hash) (type : WalletType) :
    (keyBits publicKey type).length < 1024 := by
  have hkey : (Bits.ofBytes publicKey.toList).length = 256 := by
    rw [Bits.length_ofBytes, Vector.length_toList]
  cases type with
  | walletV3 => simp [keyBits, hkey]
  | everWallet => simp [keyBits, hkey]
  | _ =>
    change ((templateOf _).label ++ Bits.ofBytes publicKey.toList).length < 1024
    rw [List.length_append, hkey, (templateOf_takesKey _).length_label]
    decide

/-- The path leads to the cell of the key. -/
theorem follow_keyPath (sha256 : List UInt8 → Hash) {publicKey : Hash} {type : WalletType}
    {data : CellTree} (h : walletData publicKey type = some data) :
    (CellTree.store sha256).follow (stateInit (codeDigest type) data) (keyPath type) =
      some (.cell (keyBits publicKey type) []) := by
  cases type with
  | walletV3 =>
    obtain rfl := Option.some.inj h
    rfl
  | everWallet =>
    obtain rfl := Option.some.inj h
    rfl
  | _ =>
    obtain rfl := Option.some.inj ((walletData_multisig rfl publicKey).symm.trans h)
    rfl

/-- The wallet that an address is computed for. -/
structure WalletOf (sdk : Sdk) (accountNumber : Nat) (walletType : UInt8) (type : WalletType)
    (publicKey : Hash) (data : CellTree) : Prop where
  type_eq : WalletType.ofByte walletType = some type
  key_eq : getPublicKey sdk accountNumber = some publicKey
  data_eq : walletData publicKey type = some data

section

variable {sdk : Sdk} {accountNumber accountNumber' : Nat} {walletType walletType' : UInt8}
  {type type' : WalletType} {publicKey publicKey' : Hash} {data data' : CellTree}

theorem WalletOf.address_eq (h : WalletOf sdk accountNumber walletType type publicKey data)
    {dc written : DataContext} {left : BocContext} {address : Hash}
    (haddress : getAddress sdk accountNumber walletType BocContext.zero dc =
      .ok (address, left, written)) :
    address = ((stateInit (codeDigest type) data).digest sdk.sha256).hash := by
  obtain ⟨data', _, _, hdata, heq⟩ := getAddress_digest h.key_eq h.type_eq dc
  obtain rfl := Option.some.inj (h.data_eq.symm.trans hdata)
  exact congrArg Prod.fst (Except.ok.inj (haddress.symm.trans heq))

theorem stateInit_node (sha256 : List UInt8 → Hash) (code : Digest) (data : CellTree) :
    (CellTree.store sha256).node (stateInit code data) =
      some ([false, false, true, true, false], [.known code, data]) := rfl

theorem keyCell_node (sha256 : List UInt8 → Hash) (publicKey : Hash) (type : WalletType) :
    (CellTree.store sha256).node (.cell (keyBits publicKey type) []) =
      some (keyBits publicKey type, []) := by
  change CellTree.node (.cell (keyBits publicKey type) []) = some (keyBits publicKey type, [])
  rw [CellTree.node_eq_some]
  exact ⟨rfl, keyBits_length publicKey type, no_refs_lt⟩

/-- An address belongs to one wallet type and one public key. -/
theorem address_bound (hwallet : WalletOf sdk accountNumber walletType type publicKey data)
    (hwallet' : WalletOf sdk accountNumber' walletType' type' publicKey' data')
    {dc dc' written written' : DataContext} {left left' : BocContext} {address : Hash}
    (h : getAddress sdk accountNumber walletType BocContext.zero dc = .ok (address, left, written))
    (h' : getAddress sdk accountNumber' walletType' BocContext.zero dc' =
      .ok (address, left', written')) :
    TreesCollide sdk.sha256 (stateInit (codeDigest type) data)
        (stateInit (codeDigest type') data') ∨ type = type' ∧ publicKey = publicKey' := by
  have hhash := (hwallet.address_eq h).symm.trans (hwallet'.address_eq h')
  by_cases hcollide : TreesCollide sdk.sha256 (stateInit (codeDigest type) data)
      (stateInit (codeDigest type') data')
  · exact Or.inl hcollide
  · right
    have hroot := (HashStore.node_eq_or_collides (stateInit_node sdk.sha256 _ _)
      (stateInit_node sdk.sha256 _ _) hhash).resolve_left hcollide
    have hcode := congrArg (fun digests => digests.head?.map Prod.fst) hroot.2
    obtain rfl := codeDigest_inj (Option.some.inj hcode)
    have hleaf := (HashStore.follow_node_or_collides hhash
      (follow_keyPath sdk.sha256 hwallet.data_eq) (follow_keyPath sdk.sha256 hwallet'.data_eq)
      (keyCell_node sdk.sha256 publicKey type)
      (keyCell_node sdk.sha256 publicKey' type)).resolve_left hcollide
    exact ⟨rfl, keyBits_inj hleaf.1⟩

end

/-- Two accounts with one address: the type and the key of both are the same. -/
theorem address_bound_plain :
    ∃ (type type' : WalletType) (publicKey publicKey' address : Hash) (data data' : CellTree),
      WalletOf testSdk 0 0 type publicKey data ∧ WalletOf testSdk 1 0 type' publicKey' data' ∧
      (∃ left written, getAddress testSdk 0 0 BocContext.zero Memory.zero =
        .ok (address, left, written)) ∧
      (∃ left written, getAddress testSdk 1 0 BocContext.zero Memory.zero =
        .ok (address, left, written)) ∧
      (TreesCollide testSdk.sha256 (stateInit (codeDigest type) data)
        (stateInit (codeDigest type') data') ∨ type = type' ∧ publicKey = publicKey') := by
  obtain ⟨publicKey, hkey⟩ := Option.isSome_iff_exists.mp
    (show (getPublicKey testSdk 0).isSome from by decide)
  have htype : WalletType.ofByte 0 = some .walletV3 := by decide
  have hkey' : getPublicKey testSdk 1 = some publicKey := hkey
  obtain ⟨data, left, written, hdata, haddress⟩ := getAddress_digest hkey htype Memory.zero
  obtain ⟨_, left', written', hdata', haddress'⟩ := getAddress_digest hkey' htype Memory.zero
  obtain rfl := Option.some.inj (hdata.symm.trans hdata')
  exact ⟨_, _, _, _, _, data, data, ⟨htype, hkey, hdata⟩, ⟨htype, hkey', hdata'⟩,
    ⟨left, written, haddress⟩, ⟨left', written', haddress'⟩,
    address_bound ⟨htype, hkey, hdata⟩ ⟨htype, hkey', hdata'⟩ haddress haddress'⟩

end EverscaleLedger.Properties
