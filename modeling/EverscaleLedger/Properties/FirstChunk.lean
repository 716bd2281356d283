import EverscaleLedger.Properties.Steps
import EverscaleLedger.Properties.Wallets

/-! The header of a first SIGN_TRANSACTION chunk, by the positions of its fields,
and the context that the handler leaves for it. -/
namespace EverscaleLedger.Properties

open Library Source

namespace FirstChunk

variable (cdata : List UInt8)

def bytesAt (start count : Nat) : List UInt8 := (cdata.drop start).take count

def byteAt (start : Nat) : UInt8 := (bytesAt cdata start 1).headD 0

def tickerLen : Nat := (byteAt cdata 6).toNat

def metadata : Nat := (byteAt cdata (7 + tickerLen cdata)).toNat

def Announces (flag : Nat) : Prop := metadata cdata &&& flag ≠ 0

instance (flag : Nat) : Decidable (Announces cdata flag) := inferInstanceAs (Decidable (_ ≠ _))

/-- The room that an optional field takes. -/
def sizeOf (flag size : Nat) : Nat := if Announces cdata flag then size else 0

def walletIdAt : Nat := 8 + tickerLen cdata
def workchainAt : Nat := walletIdAt cdata + sizeOf cdata flagWithWalletId 1
def addressAt : Nat := workchainAt cdata + sizeOf cdata flagWithWorkchainId 1
def chainIdAt : Nat := addressAt cdata + sizeOf cdata flagWithAddress addressLength
def payloadAt : Nat := chainIdAt cdata + sizeOf cdata flagWithChainId chainIdLength

def accountNumber : Nat := readUintBE (bytesAt cdata 0 4)
def originWalletType : UInt8 := byteAt cdata 4
def decimals : UInt8 := byteAt cdata 5
def ticker : List UInt8 := bytesAt cdata 7 (tickerLen cdata)

def currentWalletType : UInt8 :=
  if Announces cdata flagWithWalletId then byteAt cdata (walletIdAt cdata)
  else originWalletType cdata

def wc : UInt8 :=
  if Announces cdata flagWithWorkchainId then byteAt cdata (workchainAt cdata) else 0

def prependAddress (address : List UInt8) : List UInt8 :=
  if Announces cdata flagWithAddress then bytesAt cdata (addressAt cdata) addressLength
  else address

def chainId : Option (List UInt8) :=
  if Announces cdata flagWithChainId then some (bytesAt cdata (chainIdAt cdata) chainIdLength)
  else none

def payload : List UInt8 := cdata.drop (payloadAt cdata)

end FirstChunk

/-- The fields of `sign_tr_context` are those of a first chunk. The address is the
one of its account and original wallet, computed from cleared contexts. -/
structure HeaderHeld (sdk : Sdk) (cdata : List UInt8) (dc : DataContext) : Prop where
  accountNumber : dc.readUint DataContext.signTrContext.accountNumber =
    FirstChunk.accountNumber cdata
  originWalletType : dc.read DataContext.signTrContext.originWalletType =
    [FirstChunk.originWalletType cdata]
  currentWalletType : dc.read DataContext.signTrContext.currentWalletType =
    [FirstChunk.currentWalletType cdata]
  decimals : dc.read DataContext.signTrContext.decimals = [FirstChunk.decimals cdata]
  ticker : dc.read DataContext.signTrContext.ticker =
    FirstChunk.ticker cdata ++ List.replicate (maxTickerLen - FirstChunk.tickerLen cdata) 0
  wc : dc.read DataContext.signTrContext.wc = [FirstChunk.wc cdata]
  addresses : ∃ (address : Hash) (bc : BocContext) (written : DataContext),
    getAddress sdk (FirstChunk.accountNumber cdata) (FirstChunk.originWalletType cdata)
      BocContext.zero Memory.zero = .ok (address, bc, written) ∧
    dc.read DataContext.signTrContext.address = address.toList ∧
    dc.read DataContext.signTrContext.prependAddress =
      FirstChunk.prependAddress cdata address.toList
  signWithChainId : dc.read DataContext.signTrContext.signWithChainId =
    [if FirstChunk.Announces cdata flagWithChainId then 1 else 0]
  chainId : ∀ bytes, FirstChunk.chainId cdata = some bytes →
    dc.read DataContext.signTrContext.chainId = bytes

theorem takeField_ok {cdata bytes : List UInt8} {offset next count : Nat}
    (h : takeField cdata offset count = .ok (bytes, next)) :
    bytes = FirstChunk.bytesAt cdata offset count ∧ bytes.length = count ∧
      next = offset + count := by
  simp only [takeField, bind_eq_ok, loadMany_eq_ok, pure_eq_ok, Prod.mk.injEq] at h
  obtain ⟨_, _, _, ⟨hle, rfl⟩, rfl, rfl⟩ := h
  exact ⟨rfl, List.length_take_of_le hle, rfl⟩

theorem takeByte_ok {cdata bytes : List UInt8} {offset next : Nat}
    (h : takeField cdata offset 1 = .ok (bytes, next)) :
    bytes = [FirstChunk.byteAt cdata offset] ∧ next = offset + 1 := by
  obtain ⟨hbytes, hlength, hnext⟩ := takeField_ok h
  obtain ⟨byte, rfl⟩ := List.length_eq_one_iff.mp hlength
  exact ⟨by rw [FirstChunk.byteAt, ← hbytes]; rfl, hnext⟩

theorem takeIfPresent_ok {cdata bytes default : List UInt8} {offset next count flag : Nat}
    (h : takeIfPresent cdata offset count (FirstChunk.metadata cdata &&& flag ≠ 0) default =
      .ok (bytes, next)) :
    bytes = (if FirstChunk.Announces cdata flag then FirstChunk.bytesAt cdata offset count
      else default) ∧ (default.length = count → bytes.length = count) ∧
      next = offset + FirstChunk.sizeOf cdata flag count := by
  unfold takeIfPresent at h
  unfold FirstChunk.sizeOf
  by_cases hflag : FirstChunk.Announces cdata flag
  · rw [if_pos (show FirstChunk.metadata cdata &&& flag ≠ 0 from hflag)] at h
    obtain ⟨hbytes, hlength, hnext⟩ := takeField_ok h
    rw [if_pos hflag, if_pos hflag]
    exact ⟨hbytes, fun _ => hlength, hnext⟩
  · rw [if_neg (show ¬ FirstChunk.metadata cdata &&& flag ≠ 0 from hflag), pure_eq_ok,
      Prod.mk.injEq] at h
    obtain ⟨rfl, rfl⟩ := h
    rw [if_neg hflag, if_neg hflag]
    exact ⟨rfl, id, rfl⟩

theorem takeByteIfPresent_ok {cdata bytes : List UInt8} {default : UInt8} {offset next flag : Nat}
    (h : takeIfPresent cdata offset 1 (FirstChunk.metadata cdata &&& flag ≠ 0) [default] =
      .ok (bytes, next)) :
    bytes = [if FirstChunk.Announces cdata flag then FirstChunk.byteAt cdata offset else default] ∧
      next = offset + FirstChunk.sizeOf cdata flag 1 := by
  obtain ⟨hbytes, hlength, hnext⟩ := takeIfPresent_ok h
  obtain ⟨byte, rfl⟩ := List.length_eq_one_iff.mp (hlength rfl)
  refine ⟨?_, hnext⟩
  by_cases hflag : FirstChunk.Announces cdata flag
  · rw [if_pos hflag] at hbytes ⊢
    rw [FirstChunk.byteAt, ← hbytes]
    rfl
  · rwa [if_neg hflag] at hbytes ⊢

/-- What is written before the address is computed, and what after it. -/
def headBlocks (cdata : List UInt8) : List (Field × List UInt8) := [
  (DataContext.signTrContext.accountNumber, littleEndian 4 (FirstChunk.accountNumber cdata)),
  (DataContext.signTrContext.originWalletType, [FirstChunk.originWalletType cdata]),
  (DataContext.signTrContext.decimals, [FirstChunk.decimals cdata]),
  (DataContext.signTrContext.ticker, FirstChunk.ticker cdata),
  (DataContext.signTrContext.currentWalletType, [FirstChunk.currentWalletType cdata])]

def tailBlocks (cdata : List UInt8) (address : Hash) : List (Field × List UInt8) := [
  (DataContext.signTrContext.address, address.toList),
  (DataContext.signTrContext.wc, [FirstChunk.wc cdata]),
  (DataContext.signTrContext.prependAddress, FirstChunk.prependAddress cdata address.toList),
  (DataContext.signTrContext.signWithChainId,
    [if FirstChunk.Announces cdata flagWithChainId then 1 else 0])] ++
  ((FirstChunk.chainId cdata).map fun bytes => (DataContext.signTrContext.chainId, bytes)).toList

theorem readFirstChunk_blocks {sdk : Sdk} {cdata : List UInt8} {offset : Nat}
    {bc bc' : BocContext} {dc dc' : DataContext}
    (h : readFirstChunk sdk cdata bc dc = .ok (offset, bc', dc')) :
    ∃ (address : Hash) (left : BocContext) (written : DataContext),
      getAddress sdk (FirstChunk.accountNumber cdata) (FirstChunk.originWalletType cdata) bc
        (dc.writeFields (headBlocks cdata)) = .ok (address, left, written) ∧
      dc' = written.writeFields (tailBlocks cdata address) ∧
      bc' = BocContext.zero ∧ offset = FirstChunk.payloadAt cdata ∧
      (FirstChunk.ticker cdata).length = FirstChunk.tickerLen cdata ∧
      FirstChunk.tickerLen cdata ≤ maxTickerLen ∧
      (FirstChunk.prependAddress cdata address.toList).length = addressLength ∧
      ∀ bytes, FirstChunk.chainId cdata = some bytes → bytes.length = chainIdLength := by
  simp only [readFirstChunk, bind_eq_ok] at h
  obtain ⟨⟨account, p1⟩, h1, ⟨origin, p2⟩, h2, ⟨decimals, p3⟩, h3, ⟨size, p4⟩, h4, h⟩ := h
  obtain ⟨rfl, -, rfl⟩ := takeField_ok h1
  obtain ⟨rfl, rfl⟩ := takeByte_ok h2
  obtain ⟨rfl, rfl⟩ := takeByte_ok h3
  obtain ⟨rfl, rfl⟩ := takeByte_ok h4
  simp only [List.headD_cons] at h
  obtain ⟨_, hsize, ⟨ticker, p5⟩, h5, ⟨metadata, p6⟩, h6, ⟨wallet, p7⟩, h7,
    ⟨address, left, written⟩, h8, ⟨wc, p8⟩, h9, ⟨prepend, p9⟩, h10, h⟩ := h
  have hticker : FirstChunk.tickerLen cdata ≤ maxTickerLen := (validate_eq_ok.mp hsize).2
  obtain ⟨rfl, hlength, rfl⟩ := takeField_ok h5
  obtain ⟨rfl, rfl⟩ := takeByte_ok h6
  obtain ⟨rfl, rfl⟩ := takeByteIfPresent_ok h7
  obtain ⟨rfl, rfl⟩ := takeByteIfPresent_ok h9
  obtain ⟨hprepend, hprependLength, rfl⟩ := takeIfPresent_ok h10
  simp only at h8 hprepend hprependLength h
  have hwalletIdAt : 0 + 4 + 1 + 1 + 1 + (FirstChunk.byteAt cdata (0 + 4 + 1 + 1)).toNat + 1 =
      FirstChunk.walletIdAt cdata := by
    change 0 + 4 + 1 + 1 + 1 + FirstChunk.tickerLen cdata + 1 = 8 + FirstChunk.tickerLen cdata
    omega
  rw [hwalletIdAt] at h8 hprepend h
  have hprepended : prepend = FirstChunk.prependAddress cdata address.toList := hprepend
  subst hprepended
  have hmetadata : ([FirstChunk.byteAt cdata (0 + 4 + 1 + 1 + 1 +
      (FirstChunk.byteAt cdata (0 + 4 + 1 + 1)).toNat)].headD 0).toNat =
        FirstChunk.metadata cdata := rfl
  rw [hmetadata] at h
  refine ⟨address, left, written, h8, ?_⟩
  by_cases hflag : FirstChunk.Announces cdata flagWithChainId
  · rw [if_pos (show FirstChunk.metadata cdata &&& flagWithChainId ≠ 0 from hflag)] at h
    simp only [bind_eq_ok, pure_eq_ok, Prod.mk.injEq] at h
    obtain ⟨⟨chain, p10⟩, h11, rfl, rfl, rfl⟩ := h
    obtain ⟨rfl, hchain, rfl⟩ := takeField_ok h11
    have hchainId : FirstChunk.chainId cdata =
        some (FirstChunk.bytesAt cdata (FirstChunk.chainIdAt cdata) chainIdLength) := if_pos hflag
    have hsizeOf : FirstChunk.sizeOf cdata flagWithChainId chainIdLength = chainIdLength :=
      if_pos hflag
    refine ⟨?_, rfl, ?_, hlength, hticker, hprependLength Vector.length_toList, ?_⟩
    · rw [tailBlocks, hchainId, if_pos hflag]
      rfl
    · rw [FirstChunk.payloadAt, hsizeOf]
      rfl
    · intro bytes hbytes
      rw [hchainId, Option.some.injEq] at hbytes
      exact hbytes ▸ hchain
  · rw [if_neg (show ¬ FirstChunk.metadata cdata &&& flagWithChainId ≠ 0 from hflag)] at h
    simp only [pure_eq_ok, Prod.mk.injEq] at h
    obtain ⟨rfl, rfl, rfl⟩ := h
    have hchainId : FirstChunk.chainId cdata = none := if_neg hflag
    have hsizeOf : FirstChunk.sizeOf cdata flagWithChainId chainIdLength = 0 := if_neg hflag
    refine ⟨?_, rfl, ?_, hlength, hticker, hprependLength Vector.length_toList, ?_⟩
    · rw [tailBlocks, hchainId, if_neg hflag]
      rfl
    · rw [FirstChunk.payloadAt, hsizeOf]
      rfl
    · intro bytes hbytes
      rw [hchainId] at hbytes
      cases hbytes

def headFields : List Field := [
  DataContext.signTrContext.accountNumber, DataContext.signTrContext.originWalletType,
  DataContext.signTrContext.decimals, DataContext.signTrContext.ticker,
  DataContext.signTrContext.currentWalletType]

def tailFields : List Field := [
  DataContext.signTrContext.address, DataContext.signTrContext.wc,
  DataContext.signTrContext.prependAddress, DataContext.signTrContext.signWithChainId,
  DataContext.signTrContext.chainId]

theorem headBlocks_size {cdata : List UInt8}
    (hticker : (FirstChunk.ticker cdata).length ≤ maxTickerLen) :
    ∀ block ∈ headBlocks cdata, block.2.length ≤ block.1.size ∧ block.1 ∈ headFields := by
  have hone : ∀ byte : UInt8, [byte].length ≤ 1 := fun _ => Nat.le_refl 1
  have haccount : (littleEndian 4 (FirstChunk.accountNumber cdata)).length ≤ 4 :=
    Nat.le_of_eq (Memory.length_littleEndian ..)
  simp only [headBlocks, List.forall_mem_cons, List.not_mem_nil, false_implies, implies_true,
    and_true]
  exact ⟨⟨haccount, .head _⟩, ⟨hone _, .tail _ (.head _)⟩, ⟨hone _, .tail _ (.tail _ (.head _))⟩,
    ⟨hticker, .tail _ (.tail _ (.tail _ (.head _)))⟩,
    ⟨hone _, .tail _ (.tail _ (.tail _ (.tail _ (.head _))))⟩⟩

theorem tailBlocks_size {cdata : List UInt8} {address : Hash}
    (hprepend : (FirstChunk.prependAddress cdata address.toList).length = addressLength)
    (hchain : ∀ bytes, FirstChunk.chainId cdata = some bytes → bytes.length = chainIdLength) :
    ∀ block ∈ tailBlocks cdata address, block.2.length = block.1.size ∧ block.1 ∈ tailFields := by
  intro block hblock
  simp only [tailBlocks, List.mem_append, List.mem_cons, List.not_mem_nil, or_false,
    Option.mem_toList, Option.map_eq_some_iff] at hblock
  obtain (rfl | rfl | rfl | rfl) | ⟨bytes, hbytes, rfl⟩ := hblock
  · exact ⟨Vector.length_toList, .head _⟩
  · exact ⟨rfl, .tail _ (.head _)⟩
  · exact ⟨hprepend, .tail _ (.tail _ (.head _))⟩
  · exact ⟨rfl, .tail _ (.tail _ (.tail _ (.head _)))⟩
  · exact ⟨hchain bytes hbytes, .tail _ (.tail _ (.tail _ (.tail _ (.head _))))⟩

theorem tailBlocks_apart (cdata : List UInt8) (address : Hash) :
    ((tailBlocks cdata address).map Prod.fst).Pairwise fun a b => a.Apart b.offset b.size := by
  unfold tailBlocks
  cases FirstChunk.chainId cdata with
  | none => exact (by decide : (tailFields.take 4).Pairwise fun a b => a.Apart b.offset b.size)
  | some bytes => exact (by decide : tailFields.Pairwise fun a b => a.Apart b.offset b.size)

/-- A first chunk that is accepted leaves its header in the union, and nothing in
`boc_context`. -/
theorem readFirstChunk_ok {sdk : Sdk} {cdata : List UInt8} {offset : Nat} {bc : BocContext}
    {dc : DataContext}
    (h : readFirstChunk sdk cdata BocContext.zero Memory.zero = .ok (offset, bc, dc)) :
    HeaderHeld sdk cdata dc ∧ bc = BocContext.zero ∧ offset = FirstChunk.payloadAt cdata ∧
      dc.readUint DataContext.signTrContext.dataOffset = 0 := by
  obtain ⟨address, left, written, haddress, rfl, rfl, rfl, htickerLen, htickerMax, hprepend,
    hchain⟩ := readFirstChunk_blocks h
  obtain ⟨hwritten, hany⟩ := getAddress_dataContext haddress
  obtain ⟨fresh, hfresh⟩ := hany Memory.zero
  have hsizes := tailBlocks_size hprepend hchain
  have hticker := headBlocks_size (htickerLen ▸ htickerMax)
  have htail : ∀ (i : Nat) (field : Field) (bytes : List UInt8),
      (tailBlocks cdata address)[i]? = some (field, bytes) →
      (written.writeFields (tailBlocks cdata address)).read field = bytes := by
    intro i field bytes hblock
    have hmem := List.mem_of_getElem? hblock
    have hsize : bytes.length = field.size := (hsizes _ hmem).1
    rw [Memory.read_writeFields written (tailBlocks_apart cdata address)
      (fun block hblock => Nat.le_of_eq (hsizes block hblock).1) hmem,
      List.drop_eq_nil_of_le (Nat.le_of_eq (by rw [Memory.length_read, hsize])), List.append_nil]
  -- what lies behind the key and apart from the later fields is as the header left it
  have hkept : ∀ field : Field, 32 ≤ field.offset →
      (∀ other ∈ tailFields, field.Apart other.offset other.size) →
      (written.writeFields (tailBlocks cdata address)).read field =
        (Memory.zero.writeFields (headBlocks cdata)).read field := by
    intro field hfield hothers
    rw [Memory.read_writeFields_apart written fun block hblock => by
      rw [(hsizes block hblock).1]
      exact hothers _ (hsizes block hblock).2]
    obtain rfl | ⟨publicKey, rfl⟩ := hwritten
    · rfl
    · apply Memory.read_write_apart
      rw [Vector.length_toList]
      exact Or.inr hfield
  have hhead : ∀ (i : Nat) (field : Field) (bytes : List UInt8),
      (headBlocks cdata)[i]? = some (field, bytes) →
      (Memory.zero.writeFields (headBlocks cdata)).read field =
        bytes ++ List.replicate (field.size - bytes.length) 0 := by
    intro i field bytes hblock
    have hfields : headFields.Pairwise fun a b => a.Apart b.offset b.size := by decide
    have hapart : ((headBlocks cdata).map Prod.fst).Pairwise
      fun a b => a.Apart b.offset b.size := hfields
    rw [Memory.read_writeFields _ hapart (fun block hblock => (hticker block hblock).1)
      (List.mem_of_getElem? hblock), Memory.read_zero, List.drop_replicate]
  have haccount : FirstChunk.accountNumber cdata < 256 ^ 4 := by
    have hlt := readUintBE_lt (FirstChunk.bytesAt cdata 0 4)
    have hle : (FirstChunk.bytesAt cdata 0 4).length ≤ 4 := List.length_take_le ..
    exact Nat.lt_of_lt_of_le hlt (Nat.pow_le_pow_right (by decide) hle)
  refine ⟨⟨?_, ?_, ?_, ?_, ?_, ?_, ⟨address, left, fresh, hfresh, ?_, ?_⟩, ?_, ?_⟩, rfl, rfl, ?_⟩
  · rw [Memory.readUint, hkept _ (by decide) (by decide), hhead 0 _ _ rfl]
    rw [Memory.length_littleEndian]
    exact (congrArg littleEndianValue (List.append_nil _)).trans
      (Memory.littleEndianValue_littleEndian 4 _ haccount)
  · exact (hkept _ (by decide) (by decide)).trans (hhead 1 _ _ rfl)
  · exact (hkept _ (by decide) (by decide)).trans (hhead 4 _ _ rfl)
  · exact (hkept _ (by decide) (by decide)).trans (hhead 2 _ _ rfl)
  · rw [← htickerLen]
    exact (hkept _ (by decide) (by decide)).trans (hhead 3 _ _ rfl)
  · exact htail 1 _ _ rfl
  · exact htail 0 _ _ rfl
  · exact htail 2 _ _ rfl
  · exact htail 3 _ _ rfl
  · intro bytes hbytes
    exact htail 4 _ _ (by rw [tailBlocks, hbytes]; rfl)
  · rw [Memory.readUint, hkept _ (by decide) (by decide),
      Memory.read_writeFields_apart _ fun block hblock => ?_, Memory.read_zero]
    · rfl
    · have happart : ∀ other ∈ headFields,
        DataContext.signTrContext.dataOffset.Apart other.offset other.size := by decide
      have hother := happart _ (hticker block hblock).2
      have hsize := (hticker block hblock).1
      unfold Field.Apart at hother ⊢
      omega

end EverscaleLedger.Properties
