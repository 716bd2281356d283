import EverscaleLedger.Properties.Hashing
import EverscaleLedger.Properties.Wallets

/-! What an address depends on. `compute_multisig_address` starts from the tables
that earlier commands left, and raises the depths in them. -/
namespace EverscaleLedger.Properties

open Library Source

/-- Two buffers of one length that agree on the first bytes. -/
def AgreeUpTo (size : Nat) (first second : List UInt8) : Prop :=
  second.length = first.length ∧ second.take size = first.take size

theorem AgreeUpTo.load {size index : Nat} {first second : List UInt8}
    (h : AgreeUpTo size first second) (hindex : index < size) :
    load second index = load first index := by
  have hget : second[index]? = first[index]? := by
    rw [← List.getElem?_take_of_lt hindex, h.2, List.getElem?_take_of_lt hindex]
  unfold Source.load readAt
  rw [hget]

theorem AgreeUpTo.store {size index : Nat} {first second result : List UInt8} {value : UInt8}
    (h : AgreeUpTo size first second) (hstore : store first index value = .ok result) :
    ∃ result', store second index value = .ok result' ∧ AgreeUpTo size result result' := by
  obtain ⟨hindex, rfl⟩ := store_eq_ok.mp hstore
  refine ⟨second.set index value, store_eq_ok.mpr ⟨by rw [h.1]; exact hindex, rfl⟩, ?_, ?_⟩
  · rw [List.length_set, List.length_set, h.1]
  · rw [List.take_set, List.take_set, h.2]

/-- The byte loop reads a buffer at its first byte only. -/
theorem appendBytes_agree {input : List UInt8} {appendTag : Bool}
    {shift firstDataByte bytes count j prev bits total size : Nat} {slice next : SliceData}
    {data : List UInt8} (hagree : AgreeUpTo size slice.data data) (hfirst : firstDataByte < size)
    (h : SliceData.appendBytes input appendTag shift firstDataByte bytes count j prev bits slice =
      .ok (total, next)) :
    ∃ data', SliceData.appendBytes input appendTag shift firstDataByte bytes count j prev bits
        { slice with data } = .ok (total, { next with data := data' }) ∧
      AgreeUpTo size next.data data' := by
  induction count generalizing j prev bits slice data with
  | zero =>
    rw [SliceData.appendBytes, pure_eq_ok, Prod.mk.injEq] at h
    obtain ⟨rfl, rfl⟩ := h
    exact ⟨data, rfl, hagree⟩
  | succ count ih =>
    simp only [SliceData.appendBytes, bind_eq_ok, validate_eq_ok] at h ⊢
    obtain ⟨_, hroom, byte, hbyte, first, hread, written, hwritten, h⟩ := h
    obtain ⟨written', hwritten', hagree'⟩ := hagree.store hwritten
    have hread' : (if j = 0 then do
        let old ← load data (firstDataByte + j)
        pure ((old.toNat >>> (8 - shift)) <<< (8 - shift))
      else pure prev) = (.ok first : Outcome Nat) := by
      rw [← hread]
      split
      next hj => rw [hagree.load (by omega)]
      next => rfl
    split at h
    next hlast =>
      simp only [bind_eq_ok] at h
      obtain ⟨last, hstored, h⟩ := h
      obtain ⟨last', hstored', hagree''⟩ := hagree'.store hstored
      obtain ⟨data', hrest, hfinal⟩ := ih hagree'' h
      refine ⟨data', ⟨(), hroom, byte, hbyte, first, hread', written', hwritten', ?_⟩, hfinal⟩
      rw [if_pos hlast, bind_eq_ok]
      exact ⟨last', hstored', hrest⟩
    next hlast =>
      obtain ⟨data', hrest, hfinal⟩ := ih hagree' h
      refine ⟨data', ⟨(), hroom, byte, hbyte, first, hread', written', hwritten', ?_⟩, hfinal⟩
      rw [if_neg hlast]
      exact hrest

theorem append_agree {slice next : SliceData} {input data : List UInt8} {bits size : Nat}
    {appendTag : Bool} (hagree : AgreeUpTo size slice.data data)
    (hshift : slice.dataWindowStart % 8 ≠ 0) (hbytes : bits / 8 % 256 ≠ 0)
    (hfirst : slice.dataWindowStart / 8 % 256 < size)
    (h : slice.append input bits appendTag = .ok next) :
    ∃ data', SliceData.append { slice with data } input bits appendTag =
        .ok { next with data := data' } ∧ AgreeUpTo size next.data data' := by
  simp only [SliceData.append, bind_eq_ok, validate_eq_ok] at h ⊢
  rw [if_neg (by omega)] at h ⊢
  simp only [bind_eq_ok, pure_eq_ok] at h ⊢
  obtain ⟨_, hroom, ⟨total, middle⟩, hloop, rfl⟩ := h
  obtain ⟨data', hloop', hagree'⟩ := appendBytes_agree hagree hfirst hloop
  exact ⟨data', ⟨(), hroom, (total, { middle with data := data' }), hloop', rfl⟩, hagree'⟩

/-- The inserted key depends on the part of the buffer that the label is in. -/
theorem insertPublicKey_agree {bc bc' : BocContext} {publicKey : Hash} {data : List UInt8}
    {size : Nat} (hagree : AgreeUpTo size bc.publicKeyCellData bc'.publicKeyCellData)
    (hlength : bc.publicKeyCellData.length = maxPublicKeyCellDataSize)
    (hlabel : bc'.publicKeyLabelSizeBits = bc.publicKeyLabelSizeBits)
    (hshift : bc.publicKeyLabelSizeBits % 8 ≠ 0)
    (hinside : bc.publicKeyLabelSizeBits / 8 < size)
    (h : insertPublicKey bc publicKey = .ok data) :
    ∃ data', insertPublicKey bc' publicKey = .ok data' ∧ AgreeUpTo size data data' := by
  have hinit : ∀ bytes : List UInt8, bytes.length = maxPublicKeyCellDataSize →
      SliceData.init bytes maxPublicKeyCellDataSize =
        ⟨bytes, 0, maxPublicKeyCellDataSize * 8, maxPublicKeyCellDataSize⟩ := by
    intro bytes hbytes
    rw [SliceData.init, List.take_of_length_le (Nat.le_of_eq hbytes)]
    rfl
  simp only [insertPublicKey, hinit _ hlength, hinit _ (hagree.1.trans hlength), hlabel,
    SliceData.moveBy, bind_eq_ok, validate_eq_ok, pure_eq_ok] at h ⊢
  obtain ⟨_, ⟨_, hroom, rfl⟩, appended, happended, rfl⟩ := h
  rw [Nat.zero_add] at happended hroom
  obtain ⟨data', happended', hagree'⟩ := append_agree hagree (by exact hshift) (by decide)
    (Nat.lt_of_le_of_lt (Nat.mod_le _ _) hinside) happended
  refine ⟨data', ⟨_, ⟨(), ?_, rfl⟩, { appended with data := data' }, ?_, rfl⟩, hagree'⟩
  · rwa [Nat.zero_add]
  · rw [Nat.zero_add]
    exact happended'

/-! Two contexts that hold one template, with tables that differ in what other
commands left. -/

/-- A context right before the cells of a template are hashed. -/
structure HoldsTemplate (template : Template) (bc : BocContext) : Prop where
  holds : ∀ i c, template.cells[i]? = some c → ∃ rest, Holds (bc.cells i) c rest
  keyIndex : bc.publicKeyCellIndex = template.cells.length - 1
  depths : ∀ i, 0 < i → i < template.cells.length → (bc.cellDepth i).toNat ≤ harmlessDepth i

/-- A start of at most one is no larger than what any reference raises it to. -/
theorem depthOver_harmless (bc : BocContext) {start : UInt8} {refs : List UInt8}
    (hstart : start.toNat ≤ 1) (h : start = 0 ∨ refs ≠ []) :
    depthOver bc start refs = depthOver bc 0 refs := by
  obtain rfl | hne := h
  · rfl
  cases refs with
  | nil => exact absurd rfl hne
  | cons r refs =>
    have hraise : raiseDepth start (bc.cellDepth r.toNat) = raiseDepth 0 (bc.cellDepth r.toNat) := by
      unfold raiseDepth
      have hzero : (0 : UInt8).toNat = 0 := rfl
      rw [if_neg (by omega), if_neg (by omega)]
    simp only [depthOver, List.foldl_cons, hraise]

theorem Template.start_harmless (template : Template) {bc : BocContext}
    (h : HoldsTemplate template bc) {i : Nat} {c : RawCell} (hi : 0 < i)
    (hc : template.cells[i]? = some c) (tables : BocContext) :
    depthOver tables (bc.cellDepth i) c.refs = depthOver tables 0 c.refs := by
  obtain ⟨hlt, rfl⟩ := List.getElem?_eq_some_iff.mp hc
  have hle := h.depths i hi hlt
  have hone : harmlessDepth i ≤ 1 := by
    unfold harmlessDepth
    split <;> decide
  apply depthOver_harmless tables (by omega)
  obtain hzero | hrefs := template.raised ⟨i, hlt⟩
  · refine Or.inl (UInt8.toNat_inj.mp ?_)
    change harmlessDepth i = 0 at hzero
    have hnat : (0 : UInt8).toNat = 0 := rfl
    omega
  · exact Or.inr hrefs

/-- The representation of a cell, from the key data and its children's slots. -/
theorem representation_agree {c : RawCell} {i size : Nat} {first second : BocContext}
    (hindex : second.publicKeyCellIndex = first.publicKeyCellIndex)
    (hkey : i = first.publicKeyCellIndex → c.data.length = size)
    (hagree : AgreeUpTo size first.publicKeyCellData second.publicKeyCellData)
    (hslots : ∀ r ∈ c.refs, SameSlot first second r.toNat) :
    c.representation second i = c.representation first i := by
  have hdata : c.hashedData second i = c.hashedData first i := by
    unfold RawCell.hashedData
    rw [hindex]
    split
    next hboth => rw [hkey hboth.2, hagree.2]
    next => rfl
  have hdepths : c.depthBytes second = c.depthBytes first :=
    List.flatMap_congr fun r hr => by rw [(hslots r hr).2]
  have hhashes : c.hashBytes second = c.hashBytes first :=
    List.flatMap_congr fun r hr => by rw [(hslots r hr).1]
  rw [RawCell.representation, hdata, hdepths, hhashes]
  rfl

/-- Hashing a template leaves the same slots, whatever was in the tables before.
The induction goes from the code slot down: cells refer to later slots only. -/
theorem digestCells_agree (sdk : Sdk) {template : Template} {first second : BocContext}
    (hfirst : HoldsTemplate template first) (hsecond : HoldsTemplate template second)
    (hagree : AgreeUpTo template.keyCell.data.length first.publicKeyCellData
      second.publicKeyCellData)
    (hcode : SameSlot first second template.cells.length) (distance i : Nat)
    (hdistance : i + distance = template.cells.length) :
    (digestCells sdk template.cells 0 template.cells.length second).hashes i =
        (digestCells sdk template.cells 0 template.cells.length first).hashes i ∧
      (0 < i → (digestCells sdk template.cells 0 template.cells.length second).cellDepth i =
        (digestCells sdk template.cells 0 template.cells.length first).cellDepth i) := by
  induction distance using Nat.strongRecOn generalizing i with
  | _ distance ih =>
    have hforward := template.admitted.forward
    generalize hf : digestCells sdk template.cells 0 template.cells.length first = f at ih ⊢
    generalize hg : digestCells sdk template.cells 0 template.cells.length second = g at ih ⊢
    have hsameF : SameCells first f := hf ▸ digestCells_sameCells ..
    have hsameG : SameCells second g := hg ▸ digestCells_sameCells ..
    by_cases hend : i = template.cells.length
    · have houtF : SameSlot first f i := hf ▸ digestCells_outside sdk _ first (by omega)
      have houtG : SameSlot second g i := hg ▸ digestCells_outside sdk _ second (by omega)
      subst hend
      exact ⟨houtG.1.trans (hcode.1.trans houtF.1.symm),
        fun _ => houtG.2.trans (hcode.2.trans houtF.2.symm)⟩
    have hlt : i < template.cells.length := by omega
    have hc : template.cells[i]? = some template.cells[i] := List.getElem?_eq_getElem hlt
    have hordinary := template.ordinary _ (List.getElem_mem hlt)
    generalize template.cells[i] = c at hc hordinary
    have hslots : ∀ r ∈ c.refs, SameSlot f g r.toNat := by
      intro r hr
      have hbound := (template.admitted i c hc).refs_bound r hr
      have hrest := ih (template.cells.length - r.toNat) (by omega) r.toNat (by omega)
      exact ⟨hrest.1, hrest.2 (by omega)⟩
    have hdigestedF : Digested sdk f (first.cellDepth i) i c :=
      hf ▸ digestCells_digested sdk hforward first (Nat.zero_le i) hlt hc
    have hdigestedG : Digested sdk g (second.cellDepth i) i c :=
      hg ▸ digestCells_digested sdk hforward second (Nat.zero_le i) hlt hc
    have hkeyData : AgreeUpTo template.keyCell.data.length f.publicKeyCellData
        g.publicKeyCellData := by
      rw [hsameF.publicKeyCellData, hsameG.publicKeyCellData]
      exact hagree
    constructor
    · rw [hdigestedF.1, hdigestedG.1, RawCell.hashIn, RawCell.hashIn, if_neg hordinary,
        if_neg hordinary]
      refine congrArg sdk.sha256 (representation_agree ?_ ?_ hkeyData hslots)
      · rw [hsameF.publicKeyCellIndex, hsameG.publicKeyCellIndex, hfirst.keyIndex, hsecond.keyIndex]
      · intro hkey
        rw [hsameF.publicKeyCellIndex, hfirst.keyIndex] at hkey
        rw [hkey, template.keyCell_last] at hc
        rw [Option.some.inj hc]
    · intro hpos
      rw [hdigestedF.2, hdigestedG.2, RawCell.depthIn, RawCell.depthIn, if_neg hordinary,
        if_neg hordinary, template.start_harmless hfirst hpos hc,
        template.start_harmless hsecond hpos hc]
      exact depthOver_congr 0 c.refs fun r hr => (hslots r hr).2

/-- The hashing loop on two such contexts ends with the same root hash. -/
theorem calcCellHashes_agree {sdk : Sdk} {template : Template} {first second result : BocContext}
    (hfirst : HoldsTemplate template first) (hsecond : HoldsTemplate template second)
    (hagree : AgreeUpTo template.keyCell.data.length first.publicKeyCellData
      second.publicKeyCellData)
    (hcode : SameSlot first second template.cells.length)
    (h : calcCellHashes sdk template.cells.length first = .ok result) :
    ∃ result', calcCellHashes sdk template.cells.length second = .ok result' ∧
      result'.hashes 0 = result.hashes 0 := by
  have hforward := template.admitted.forward
  have hbound : template.cells.length ≤ maxContractCellsCount :=
    Nat.le_trans template.length_bounds.2 (by decide)
  rw [calcCellHashes_eq_ok hforward (Nat.zero_le _) (fun i c _ hc => hfirst.holds i c hc)
    (Nat.le_refl _) hbound, calcCellHashes, pure_eq_ok] at h
  obtain ⟨hhashable, rfl⟩ := h
  refine ⟨digestCells sdk template.cells 0 template.cells.length second, ?_,
    (digestCells_agree sdk hfirst hsecond hagree hcode template.cells.length 0 (by omega)).1⟩
  rw [calcCellHashes_eq_ok hforward (Nat.zero_le _) (fun i c _ hc => hsecond.holds i c hc)
    (Nat.le_refl _) hbound, calcCellHashes, pure_eq_ok]
  refine ⟨fun i c _ hi hc => ?_, rfl⟩
  have hsame := hhashable i c (Nat.zero_le _) hi hc
  unfold Hashable at hsame ⊢
  rwa [hsecond.keyIndex, ← hfirst.keyIndex, hagree.1]

/-! The states that commands leave. -/

def HarmlessDepths (depths : Nat → UInt8) : Prop :=
  ∀ i, 0 < i → i < 6 → (depths i).toNat ≤ harmlessDepth i

instance (depths : Nat → UInt8) : Decidable (HarmlessDepths depths) :=
  decidable_of_iff (∀ i : Fin 6, 0 < i.val → (depths i).toNat ≤ harmlessDepth i)
    ⟨fun h i hpos hlt => h ⟨i, hlt⟩ hpos, fun h i hpos => h i hpos i.isLt⟩

structure Harmless (bc : BocContext) : Prop where
  depths : HarmlessDepths bc.cellDepth
  keyData : bc.publicKeyCellData.length = maxPublicKeyCellDataSize

theorem harmless_zero : Harmless BocContext.zero :=
  ⟨fun _ _ _ => Nat.zero_le _, List.length_replicate⟩

theorem copiedWallet_holds (template : Template) (wallet : MultisigWallet) {bc : BocContext}
    (h : HarmlessDepths bc.cellDepth) (publicKeyCellData : List UInt8) :
    HoldsTemplate template { copiedWallet template wallet bc with publicKeyCellData } where
  holds i c hc := by
    have hholds := storeCells_holds 0 template.cells [] { bc with cellsCount := 0 } i c hc
    rwa [Nat.zero_add, List.append_nil] at hholds
  keyIndex := rfl
  depths i hpos hlt := by
    have hother : (copiedWallet template wallet bc).cellDepth i = bc.cellDepth i :=
      Function.update_of_ne (Nat.ne_of_lt hlt) _ _
    change ((copiedWallet template wallet bc).cellDepth i).toNat ≤ _
    rw [hother]
    exact h i hpos (Nat.lt_of_lt_of_le hlt template.length_bounds.2)

/-- The slot past the cells holds the code cell of the wallet. -/
theorem copiedWallet_code (template : Template) (wallet : MultisigWallet) (bc bc' : BocContext) :
    SameSlot (copiedWallet template wallet bc) (copiedWallet template wallet bc')
      template.cells.length := by
  unfold SameSlot copiedWallet loadedWallet
  simp only [Function.update_self, and_self]

/-- The root hash of a wallet, from any two harmless contexts. -/
theorem wallet_agree {sdk : Sdk} {type : WalletType} {wallet : MultisigWallet}
    (hwallet : multisigWallet type = some wallet) {bc bc' loaded hashed : BocContext}
    {publicKey : Hash} (h : Harmless bc) (h' : Harmless bc') (hload : wallet.load bc = .ok loaded)
    (hhash : hashWallet sdk publicKey loaded = .ok hashed) :
    ∃ loaded' hashed', wallet.load bc' = .ok loaded' ∧
      hashWallet sdk publicKey loaded' = .ok hashed' ∧ hashed'.hashes 0 = hashed.hashes 0 := by
  rw [MultisigWallet.load_eq hwallet h.keyData, Except.ok.injEq] at hload
  subst hload
  have hload' := MultisigWallet.load_eq hwallet h'.keyData
  generalize templateOf type = template at hhash hload'
  have hlength := length_copiedWallet template wallet h.keyData
  have hbuffer : AgreeUpTo template.keyCell.data.length
      (copiedWallet template wallet bc).publicKeyCellData
      (copiedWallet template wallet bc').publicKeyCellData := by
    refine ⟨(length_copiedWallet template wallet h'.keyData).trans hlength.symm, ?_⟩
    simp only [copiedWallet, List.take_left]
  have hcells : template.cells.length - 1 + 1 = template.cells.length :=
    Nat.sub_add_cancel (Nat.le_of_lt template.length_bounds.1)
  have hcount : ∀ bc, (copiedWallet template wallet bc).publicKeyCellIndex + 1 =
      template.cells.length := fun _ => hcells
  simp only [hashWallet, bind_eq_ok, hcount] at hhash ⊢
  obtain ⟨data, hinsert, hhash⟩ := hhash
  obtain ⟨data', hinsert', hagree⟩ := insertPublicKey_agree hbuffer hlength rfl
    template.label_inside.1 template.label_inside.2 hinsert
  obtain ⟨hashed', hhash', hroot⟩ := calcCellHashes_agree
    (copiedWallet_holds template wallet h.depths data)
    (copiedWallet_holds template wallet h'.depths data') hagree
    (copiedWallet_code template wallet bc bc') hhash
  exact ⟨_, hashed', hload', ⟨data', hinsert', hcount bc' ▸ hhash'⟩, hroot⟩

/-- The address, from any two harmless contexts. -/
theorem getAddress_agree {sdk : Sdk} {accountNumber : Nat} {walletType : UInt8}
    {bc bc' left : BocContext} {dc written : DataContext} {address : Hash} (h : Harmless bc)
    (h' : Harmless bc')
    (haddress : getAddress sdk accountNumber walletType bc dc = .ok (address, left, written))
    (dc' : DataContext) :
    ∃ left' written',
      getAddress sdk accountNumber walletType bc' dc' = .ok (address, left', written') := by
  cases getAddress_ok haddress with
  | plain _ same => exact ⟨bc', dc', same bc' dc'⟩
  | multisig typed wallet_eq derived load hash =>
    obtain ⟨loaded', hashed', hload', hhash', hroot⟩ := wallet_agree wallet_eq h h' load hash
    rw [← hroot]
    exact ⟨hashed', _, getAddress_hashed typed wallet_eq derived hload' hhash' dc'⟩

/-- The address that `get_address` computes, if it does. -/
def addressOf (sdk : Sdk) (accountNumber : Nat) (walletType : UInt8) (bc : BocContext)
    (dc : DataContext) : Option Hash :=
  match getAddress sdk accountNumber walletType bc dc with
  | .ok (address, _, _) => some address
  | .error _ => none

theorem addressOf_eq_some {sdk : Sdk} {accountNumber : Nat} {walletType : UInt8} {bc : BocContext}
    {dc : DataContext} {address : Hash} :
    addressOf sdk accountNumber walletType bc dc = some address ↔ ∃ left written,
      getAddress sdk accountNumber walletType bc dc = .ok (address, left, written) := by
  unfold addressOf
  split
  next computed left written hcomputed =>
    rw [hcomputed]
    constructor
    · intro h
      obtain rfl := Option.some.inj h
      exact ⟨left, written, rfl⟩
    · rintro ⟨_, _, h⟩
      obtain ⟨rfl, -⟩ := Prod.mk.inj (Except.ok.inj h)
      rfl
  next abort hcomputed =>
    rw [hcomputed]
    constructor
    · intro h
      cases h
    · rintro ⟨_, _, h⟩
      cases h

/-- Harmless contexts give every wallet the same address. -/
theorem addressOf_agree (sdk : Sdk) (accountNumber : Nat) (walletType : UInt8)
    {bc bc' : BocContext} (h : Harmless bc) (h' : Harmless bc') (dc dc' : DataContext) :
    addressOf sdk accountNumber walletType bc dc = addressOf sdk accountNumber walletType bc' dc' := by
  apply Option.ext
  intro address
  rw [addressOf_eq_some, addressOf_eq_some]
  constructor
  · rintro ⟨_, _, hcomputed⟩
    exact getAddress_agree h h' hcomputed dc'
  · rintro ⟨_, _, hcomputed⟩
    exact getAddress_agree h' h hcomputed dc

end EverscaleLedger.Properties
