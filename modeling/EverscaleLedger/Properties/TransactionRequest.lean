import EverscaleLedger.Properties.FirstChunk
import EverscaleLedger.Properties.StateInit

/-! Signing requests as the protocol lays them out, and what the reader of the first
chunk makes of them: all of their fields, or an exception when the header is cut. -/
namespace EverscaleLedger.Properties

open Library Source

/-! Headers that are long enough. -/

theorem takeField_eq {cdata : List UInt8} {offset count : Nat} (h : offset + count ≤ cdata.length) :
    takeField cdata offset count = .ok (FirstChunk.bytesAt cdata offset count, offset + count) := by
  have hloaded : loadMany (cdata.drop offset) count = .ok (FirstChunk.bytesAt cdata offset count) := by
    rw [loadMany_eq_ok, List.length_drop]
    exact ⟨by omega, rfl⟩
  rw [takeField, validate_of_true h, ok_bind, hloaded]
  rfl

theorem takeByte_eq {cdata : List UInt8} {offset : Nat} (h : offset + 1 ≤ cdata.length) :
    takeField cdata offset 1 = .ok ([FirstChunk.byteAt cdata offset], offset + 1) := by
  have htake := takeField_eq h
  rw [(takeByte_ok htake).1] at htake
  exact htake

theorem takeIfPresent_eq {cdata default : List UInt8} {offset count flag : Nat}
    (h : offset + FirstChunk.sizeOf cdata flag count ≤ cdata.length) :
    takeIfPresent cdata offset count (FirstChunk.metadata cdata &&& flag ≠ 0) default =
      .ok (if FirstChunk.Announces cdata flag then FirstChunk.bytesAt cdata offset count else default,
        offset + FirstChunk.sizeOf cdata flag count) := by
  unfold takeIfPresent
  unfold FirstChunk.sizeOf at h ⊢
  by_cases hflag : FirstChunk.Announces cdata flag
  · simp only [if_pos hflag] at h ⊢
    rw [if_pos (show FirstChunk.metadata cdata &&& flag ≠ 0 from hflag)]
    exact takeField_eq h
  · simp only [if_neg hflag]
    rw [if_neg (show ¬ FirstChunk.metadata cdata &&& flag ≠ 0 from hflag)]
    rfl

theorem takeByteIfPresent_eq {cdata : List UInt8} {default : UInt8} {offset flag : Nat}
    (h : offset + FirstChunk.sizeOf cdata flag 1 ≤ cdata.length) :
    takeIfPresent cdata offset 1 (FirstChunk.metadata cdata &&& flag ≠ 0) [default] =
      .ok ([if FirstChunk.Announces cdata flag then FirstChunk.byteAt cdata offset else default],
        offset + FirstChunk.sizeOf cdata flag 1) := by
  have htake := @takeIfPresent_eq cdata [default] offset 1 flag h
  rw [(takeByteIfPresent_ok htake).1] at htake
  exact htake

/-- With a whole header only the derivation of the address can fail. -/
theorem readFirstChunk_eq (sdk : Sdk) {cdata : List UInt8} (bc : BocContext) (dc : DataContext)
    (hticker : FirstChunk.tickerLen cdata ≠ 0 ∧ FirstChunk.tickerLen cdata ≤ maxTickerLen)
    (hlength : FirstChunk.payloadAt cdata ≤ cdata.length) :
    readFirstChunk sdk cdata bc dc = (do
      let (address, _, dc) ← getAddress sdk (FirstChunk.accountNumber cdata)
        (FirstChunk.originWalletType cdata) bc (dc.writeFields (headBlocks cdata))
      pure (FirstChunk.payloadAt cdata, BocContext.zero,
        dc.writeFields (tailBlocks cdata address))) := by
  have hpayload : FirstChunk.chainIdAt cdata +
      FirstChunk.sizeOf cdata flagWithChainId chainIdLength ≤ cdata.length := hlength
  have hchainId : FirstChunk.addressAt cdata +
      FirstChunk.sizeOf cdata flagWithAddress addressLength ≤ cdata.length :=
    Nat.le_trans (Nat.le_add_right ..) hpayload
  have haddress : FirstChunk.workchainAt cdata +
      FirstChunk.sizeOf cdata flagWithWorkchainId 1 ≤ cdata.length :=
    Nat.le_trans (Nat.le_add_right ..) hchainId
  have hworkchain : FirstChunk.walletIdAt cdata +
      FirstChunk.sizeOf cdata flagWithWalletId 1 ≤ cdata.length :=
    Nat.le_trans (Nat.le_add_right ..) haddress
  have hwalletId : 8 + FirstChunk.tickerLen cdata ≤ cdata.length :=
    Nat.le_trans (Nat.le_add_right ..) hworkchain
  have haccount := @takeField_eq cdata 0 4 (by omega)
  have horigin := @takeByte_eq cdata 4 (by omega)
  have hdecimals := @takeByte_eq cdata 5 (by omega)
  have hsize := @takeByte_eq cdata 6 (by omega)
  have htickerField := @takeField_eq cdata 7 (FirstChunk.tickerLen cdata) (by omega)
  have hmetadata := @takeByte_eq cdata (7 + FirstChunk.tickerLen cdata) (by omega)
  rw [show 7 + FirstChunk.tickerLen cdata + 1 = FirstChunk.walletIdAt cdata by
    rw [FirstChunk.walletIdAt]; omega] at hmetadata
  have htickerLen : (FirstChunk.byteAt cdata 6).toNat = FirstChunk.tickerLen cdata := rfl
  have hflags : (FirstChunk.byteAt cdata (7 + FirstChunk.tickerLen cdata)).toNat =
      FirstChunk.metadata cdata := rfl
  have hwallet : takeIfPresent cdata (FirstChunk.walletIdAt cdata) 1
      (FirstChunk.metadata cdata &&& flagWithWalletId ≠ 0) [FirstChunk.byteAt cdata 4] =
        .ok ([FirstChunk.currentWalletType cdata], FirstChunk.workchainAt cdata) :=
    takeByteIfPresent_eq hworkchain
  have hwc : takeIfPresent cdata (FirstChunk.workchainAt cdata) 1
      (FirstChunk.metadata cdata &&& flagWithWorkchainId ≠ 0) [0] =
        .ok ([FirstChunk.wc cdata], FirstChunk.addressAt cdata) :=
    takeByteIfPresent_eq haddress
  simp only [readFirstChunk, haccount, ok_bind, Nat.zero_add, horigin, Nat.reduceAdd, hdecimals,
    hsize, List.headD_cons, htickerLen, validate_of_true hticker, htickerField, hmetadata, hflags,
    hwallet, hwc]
  apply bind_congr
  intro result
  obtain ⟨address, left, written⟩ := result
  have hprepend : takeIfPresent cdata (FirstChunk.addressAt cdata) addressLength
      (FirstChunk.metadata cdata &&& flagWithAddress ≠ 0) address.toList =
        .ok (FirstChunk.prependAddress cdata address.toList, FirstChunk.chainIdAt cdata) :=
    takeIfPresent_eq hchainId
  simp only [hprepend, ok_bind]
  by_cases hflag : FirstChunk.Announces cdata flagWithChainId
  · have hsizeOf : FirstChunk.sizeOf cdata flagWithChainId chainIdLength = chainIdLength :=
      if_pos hflag
    have hid : FirstChunk.chainId cdata =
        some (FirstChunk.bytesAt cdata (FirstChunk.chainIdAt cdata) chainIdLength) := if_pos hflag
    rw [hsizeOf] at hpayload
    rw [if_pos (show FirstChunk.metadata cdata &&& flagWithChainId ≠ 0 from hflag),
      takeField_eq hpayload, ok_bind, FirstChunk.payloadAt, hsizeOf, tailBlocks, hid, if_pos hflag]
    rfl
  · have hsizeOf : FirstChunk.sizeOf cdata flagWithChainId chainIdLength = 0 := if_neg hflag
    have hid : FirstChunk.chainId cdata = none := if_neg hflag
    rw [if_neg (show ¬ FirstChunk.metadata cdata &&& flagWithChainId ≠ 0 from hflag),
      FirstChunk.payloadAt, hsizeOf, tailBlocks, hid, if_neg hflag]
    rfl

/-! Headers that are cut. -/

theorem takeField_givesUp (bytes more : List UInt8) (offset count : Nat) :
    GivesUp (.thrown .invalidRequest) (takeField bytes offset count)
      (takeField (bytes ++ more) offset count) := by
  by_cases h : offset + count ≤ bytes.length
  · have hall : offset + count ≤ (bytes ++ more).length := by
      rw [List.length_append]
      omega
    have hsame : FirstChunk.bytesAt (bytes ++ more) offset count =
        FirstChunk.bytesAt bytes offset count := by
      unfold FirstChunk.bytesAt
      rw [List.drop_append_of_le_length (by omega),
        List.take_append_of_le_length (by rw [List.length_drop]; omega)]
    rw [takeField_eq h, takeField_eq hall, hsame]
    exact .refl _
  · left
    rw [takeField, validate, require, if_neg h]
    rfl

theorem takeIfPresent_givesUp (bytes more : List UInt8) (offset count : Nat) (present : Prop)
    [Decidable present] (default : List UInt8) :
    GivesUp (.thrown .invalidRequest) (takeIfPresent bytes offset count present default)
      (takeIfPresent (bytes ++ more) offset count present default) := by
  unfold takeIfPresent
  split
  · exact takeField_givesUp ..
  · exact .refl _

/-- A chunk whose header is cut is not read differently: it is refused where its bytes end. -/
theorem readFirstChunk_givesUp (sdk : Sdk) (bytes more : List UInt8) (bc : BocContext)
    (dc : DataContext) :
    GivesUp (.thrown .invalidRequest) (readFirstChunk sdk bytes bc dc)
      (readFirstChunk sdk (bytes ++ more) bc dc) := by
  unfold readFirstChunk
  apply (takeField_givesUp ..).bind
  intro ⟨account, _⟩
  apply (takeField_givesUp ..).bind
  intro ⟨origin, _⟩
  apply (takeField_givesUp ..).bind
  intro ⟨decimals, _⟩
  apply (takeField_givesUp ..).bind
  intro ⟨size, _⟩
  apply (GivesUp.refl _).bind
  intro _
  apply (takeField_givesUp ..).bind
  intro ⟨ticker, _⟩
  apply (takeField_givesUp ..).bind
  intro ⟨metadata, _⟩
  apply (takeIfPresent_givesUp ..).bind
  intro ⟨wallet, _⟩
  apply (GivesUp.refl _).bind
  intro ⟨address, _, _⟩
  apply (takeIfPresent_givesUp ..).bind
  intro ⟨wc, _⟩
  apply (takeIfPresent_givesUp ..).bind
  intro ⟨prepend, _⟩
  simp only
  split
  · apply (takeField_givesUp ..).bind
    intro ⟨chainId, _⟩
    exact .refl _
  · exact .refl _

theorem takeField_le {cdata bytes : List UInt8} {offset next count : Nat}
    (h : takeField cdata offset count = .ok (bytes, next)) : next ≤ cdata.length := by
  simp only [takeField, bind_eq_ok, validate_eq_ok, pure_eq_ok, Prod.mk.injEq] at h
  obtain ⟨_, hle, _, _, _, rfl⟩ := h
  exact hle

theorem takeIfPresent_le {cdata bytes default : List UInt8} {offset next count : Nat} {present : Prop}
    [Decidable present] (hoffset : offset ≤ cdata.length)
    (h : takeIfPresent cdata offset count present default = .ok (bytes, next)) :
    next ≤ cdata.length := by
  unfold takeIfPresent at h
  split at h
  · exact takeField_le h
  · rw [pure_eq_ok, Prod.mk.injEq] at h
    exact h.2 ▸ hoffset

theorem readFirstChunk_le {sdk : Sdk} {cdata : List UInt8} {offset : Nat} {bc next : BocContext}
    {dc written : DataContext}
    (h : readFirstChunk sdk cdata bc dc = .ok (offset, next, written)) : offset ≤ cdata.length := by
  simp only [readFirstChunk, bind_eq_ok] at h
  obtain ⟨_, _, _, _, _, _, _, _, _, _, _, _, ⟨_, _⟩, hmetadata, ⟨_, _⟩, hwallet, _, _, ⟨_, _⟩, hwc,
    ⟨_, _⟩, hprepend, h⟩ := h
  have hle := takeIfPresent_le (takeIfPresent_le (takeIfPresent_le (takeField_le hmetadata) hwallet)
    hwc) hprepend
  split at h
  · simp only [bind_eq_ok, pure_eq_ok, Prod.mk.injEq] at h
    obtain ⟨⟨_, _⟩, hchainId, rfl, -⟩ := h
    exact takeField_le hchainId
  · rw [pure_eq_ok, Prod.mk.injEq] at h
    exact h.1 ▸ hle

/-! Requests. -/

/-- The fields of SIGN TRANSACTION, four of them optional. -/
structure TransactionRequest where
  accountNumber : UInt32
  originWalletType : UInt8
  decimals : UInt8
  ticker : List UInt8
  currentWalletType : Option UInt8
  workchainId : Option UInt8
  address : Option Hash
  chainId : Option (Vector UInt8 chainIdLength)
  payload : List UInt8
  originWalletType_valid : (WalletType.ofByte originWalletType).isSome
  ticker_length : 0 < ticker.length ∧ ticker.length ≤ maxTickerLen
  payload_length : payload.length < maxDataLen

namespace TransactionRequest

variable (request : TransactionRequest)

def metadata : Nat :=
  (if request.currentWalletType.isSome then flagWithWalletId else 0) +
  (if request.workchainId.isSome then flagWithWorkchainId else 0) +
  (if request.address.isSome then flagWithAddress else 0) +
  (if request.chainId.isSome then flagWithChainId else 0)

/-- The bytes of an optional field. -/
def optional (bytes : Option (List UInt8)) : List UInt8 := bytes.getD []

def chainIdBytes : List UInt8 := optional (request.chainId.map Vector.toList)
def addressBytes : List UInt8 := optional (request.address.map Vector.toList)
def workchainIdBytes : List UInt8 := optional (request.workchainId.map fun byte => [byte])
def walletIdBytes : List UInt8 := optional (request.currentWalletType.map fun byte => [byte])

def options : List UInt8 :=
  request.walletIdBytes ++
    (request.workchainIdBytes ++ (request.addressBytes ++ request.chainIdBytes))

def header : List UInt8 :=
  writeUintBE 4 request.accountNumber.toNat ++
    request.originWalletType :: request.decimals :: UInt8.ofNat request.ticker.length ::
      (request.ticker ++ UInt8.ofNat request.metadata :: request.options)

/-- The bytes of a request, in the order of the protocol. -/
def encode : List UInt8 := request.header ++ request.payload

end TransactionRequest

theorem writeUintBE_succ (width value : Nat) :
    writeUintBE (width + 1) value = writeUintBE width (value / 256) ++ [UInt8.ofNat value] := by
  unfold writeUintBE
  rw [List.range_succ, List.map_append]
  congr 1
  · apply List.map_congr_left
    intro i hi
    rw [List.mem_range] at hi
    rw [show 8 * (width + 1 - 1 - i) = 8 + 8 * (width - 1 - i) by omega, Nat.shiftRight_add,
      Nat.shiftRight_eq_div_pow value 8]
  · simp

theorem readUintBE_writeUintBE {width value : Nat} (h : value < 256 ^ width) :
    readUintBE (writeUintBE width value) = value := by
  induction width generalizing value with
  | zero =>
    rw [Nat.pow_zero, Nat.lt_one_iff] at h
    rw [h]
    rfl
  | succ width ih =>
    have hquotient : value / 256 < 256 ^ width := by
      rw [Nat.div_lt_iff_lt_mul (by decide)]
      rwa [Nat.pow_succ] at h
    have hquotientRead := ih hquotient
    unfold readUintBE at hquotientRead ⊢
    rw [writeUintBE_succ, List.foldl_append, hquotientRead, List.foldl_cons, List.foldl_nil,
      UInt8.toNat_ofNat']
    omega

/-! The positions of the fields in the header of a request. -/

namespace FirstChunk

variable {cdata : List UInt8} {start : Nat}

theorem bytesAt_of_drop {bytes rest : List UInt8} (h : cdata.drop start = bytes ++ rest) :
    bytesAt cdata start bytes.length = bytes := by
  rw [bytesAt, h, List.take_left]

theorem byteAt_of_drop {byte : UInt8} {rest : List UInt8} (h : cdata.drop start = byte :: rest) :
    byteAt cdata start = byte := by
  rw [byteAt, bytesAt, h]
  rfl

theorem drop_of_drop {bytes rest : List UInt8} (h : cdata.drop start = bytes ++ rest) :
    cdata.drop (start + bytes.length) = rest := by
  rw [← List.drop_drop, h, List.drop_left]

section

variable {flag size : Nat} {field : Option (List UInt8)} {rest : List UInt8}
  (hflag : Announces cdata flag ↔ field.isSome) (hsize : ∀ bytes ∈ field, bytes.length = size)

include hflag hsize

theorem sizeOf_optional : sizeOf cdata flag size = (TransactionRequest.optional field).length := by
  unfold sizeOf
  cases field with
  | none => exact if_neg fun h => by simpa using hflag.mp h
  | some bytes => exact (if_pos (hflag.mpr rfl)).trans (hsize bytes rfl).symm

/-- An optional field, at the place where it is looked for. -/
theorem bytesAt_optional (h : cdata.drop start = TransactionRequest.optional field ++ rest)
    (default : List UInt8) :
    (if Announces cdata flag then bytesAt cdata start size else default) = field.getD default := by
  cases field with
  | none => exact if_neg fun h => by simpa using hflag.mp h
  | some bytes =>
    rw [if_pos (hflag.mpr rfl), ← hsize bytes rfl]
    exact bytesAt_of_drop h

end

theorem byteAt_optional {flag : Nat} {field : Option UInt8} {rest : List UInt8}
    (hflag : Announces cdata flag ↔ field.isSome)
    (h : cdata.drop start = TransactionRequest.optional (field.map fun byte => [byte]) ++ rest)
    (default : UInt8) :
    (if Announces cdata flag then byteAt cdata start else default) = field.getD default := by
  cases field with
  | none => exact if_neg fun h => by simpa using hflag.mp h
  | some byte =>
    rw [if_pos (hflag.mpr rfl)]
    exact byteAt_of_drop h

end FirstChunk

namespace TransactionRequest

variable (request : TransactionRequest)

theorem drop_header_ticker :
    request.header.drop 7 = request.ticker ++ UInt8.ofNat request.metadata :: request.options := rfl

theorem tickerLen_header : FirstChunk.tickerLen request.header = request.ticker.length := by
  have hmax : request.ticker.length ≤ 10 := request.ticker_length.2
  have hbyte : FirstChunk.byteAt request.header 6 = UInt8.ofNat request.ticker.length := rfl
  rw [FirstChunk.tickerLen, hbyte, UInt8.toNat_ofNat', Nat.mod_eq_of_lt (by omega)]

theorem drop_header_metadata :
    request.header.drop (7 + FirstChunk.tickerLen request.header) =
      UInt8.ofNat request.metadata :: request.options := by
  rw [tickerLen_header]
  exact FirstChunk.drop_of_drop request.drop_header_ticker

theorem drop_header_options :
    request.header.drop (FirstChunk.walletIdAt request.header) = request.options := by
  rw [FirstChunk.walletIdAt, show 8 + FirstChunk.tickerLen request.header =
    7 + FirstChunk.tickerLen request.header + 1 by omega, ← List.drop_drop, drop_header_metadata]
  rfl

/-- The metadata byte announces the optional fields that are there. -/
theorem announces_header :
    (FirstChunk.Announces request.header flagWithWalletId ↔ request.currentWalletType.isSome) ∧
    (FirstChunk.Announces request.header flagWithWorkchainId ↔ request.workchainId.isSome) ∧
    (FirstChunk.Announces request.header flagWithAddress ↔ request.address.isSome) ∧
    (FirstChunk.Announces request.header flagWithChainId ↔ request.chainId.isSome) := by
  have hmetadata : FirstChunk.metadata request.header = (UInt8.ofNat request.metadata).toNat := by
    rw [FirstChunk.metadata, FirstChunk.byteAt_of_drop request.drop_header_metadata]
  unfold FirstChunk.Announces
  rw [hmetadata, metadata]
  generalize request.currentWalletType.isSome = wallet
  generalize request.workchainId.isSome = workchain
  generalize request.address.isSome = address
  generalize request.chainId.isSome = chain
  revert wallet workchain address chain
  decide

/-- The positions of the optional fields, and what comes behind them. -/
theorem header_positions :
    request.header.drop (FirstChunk.workchainAt request.header) =
        request.workchainIdBytes ++ (request.addressBytes ++ request.chainIdBytes) ∧
      request.header.drop (FirstChunk.addressAt request.header) =
        request.addressBytes ++ request.chainIdBytes ∧
      request.header.drop (FirstChunk.chainIdAt request.header) = request.chainIdBytes ∧
      FirstChunk.payloadAt request.header = request.header.length := by
  obtain ⟨hwalletId, hworkchainId, haddress, hchainId⟩ := request.announces_header
  have hwalletIdSize := @FirstChunk.sizeOf_optional request.header flagWithWalletId 1
    (request.currentWalletType.map fun byte => [byte]) (by rw [hwalletId, Option.isSome_map])
    (by simp)
  have hworkchainIdSize := @FirstChunk.sizeOf_optional request.header flagWithWorkchainId 1
    (request.workchainId.map fun byte => [byte]) (by rw [hworkchainId, Option.isSome_map])
    (by simp)
  have haddressSize := @FirstChunk.sizeOf_optional request.header flagWithAddress addressLength
    (request.address.map Vector.toList) (by rw [haddress, Option.isSome_map])
    (by simp [addressLength])
  have hchainIdSize := @FirstChunk.sizeOf_optional request.header flagWithChainId chainIdLength
    (request.chainId.map Vector.toList) (by rw [hchainId, Option.isSome_map])
    (by simp)
  have hworkchainAt : request.header.drop (FirstChunk.workchainAt request.header) =
      request.workchainIdBytes ++ (request.addressBytes ++ request.chainIdBytes) := by
    rw [FirstChunk.workchainAt, hwalletIdSize]
    exact FirstChunk.drop_of_drop request.drop_header_options
  have haddressAt : request.header.drop (FirstChunk.addressAt request.header) =
      request.addressBytes ++ request.chainIdBytes := by
    rw [FirstChunk.addressAt, hworkchainIdSize]
    exact FirstChunk.drop_of_drop hworkchainAt
  have hchainIdAt : request.header.drop (FirstChunk.chainIdAt request.header) =
      request.chainIdBytes := by
    rw [FirstChunk.chainIdAt, haddressSize]
    exact FirstChunk.drop_of_drop haddressAt
  refine ⟨hworkchainAt, haddressAt, hchainIdAt, ?_⟩
  rw [FirstChunk.payloadAt, FirstChunk.chainIdAt, FirstChunk.addressAt, FirstChunk.workchainAt,
    FirstChunk.walletIdAt, hwalletIdSize, hworkchainIdSize, haddressSize, hchainIdSize,
    tickerLen_header]
  simp [header, options, walletIdBytes, workchainIdBytes, addressBytes, chainIdBytes, writeUintBE]
  omega

/-- The reader finds the fields of a request in its header. -/
theorem header_fields :
    FirstChunk.accountNumber request.header = request.accountNumber.toNat ∧
      FirstChunk.ticker request.header = request.ticker ∧
      FirstChunk.currentWalletType request.header =
        request.currentWalletType.getD request.originWalletType ∧
      FirstChunk.wc request.header = request.workchainId.getD 0 ∧
      (∀ address : Hash, FirstChunk.prependAddress request.header address.toList =
        (request.address.getD address).toList) ∧
      FirstChunk.chainId request.header = request.chainId.map Vector.toList := by
  obtain ⟨hwalletId, hworkchainId, haddress, hchainId⟩ := request.announces_header
  obtain ⟨hworkchainAt, haddressAt, hchainIdAt, -⟩ := request.header_positions
  refine ⟨?_, ?_, ?_, ?_, fun address => ?_, ?_⟩
  · have haccount : request.accountNumber.toNat < 256 ^ 4 := request.accountNumber.toNat_lt
    exact readUintBE_writeUintBE haccount
  · rw [FirstChunk.ticker, tickerLen_header]
    exact FirstChunk.bytesAt_of_drop request.drop_header_ticker
  · exact FirstChunk.byteAt_optional hwalletId request.drop_header_options _
  · exact FirstChunk.byteAt_optional hworkchainId hworkchainAt 0
  · have hbytes := @FirstChunk.bytesAt_optional request.header _ flagWithAddress addressLength
      (request.address.map Vector.toList) _ (by rw [haddress, Option.isSome_map])
      (by simp [addressLength]) haddressAt address.toList
    rw [FirstChunk.prependAddress, hbytes]
    exact Option.getD_map Vector.toList address request.address
  · unfold FirstChunk.chainId
    cases hid : request.chainId with
    | none => exact if_neg fun h => by simpa [hid] using hchainId.mp h
    | some chainId =>
      have hdrop : request.header.drop (FirstChunk.chainIdAt request.header) =
          chainId.toList ++ [] := by
        rw [hchainIdAt, chainIdBytes, hid, List.append_nil]
        rfl
      have hbytes := FirstChunk.bytesAt_of_drop hdrop
      rw [Vector.length_toList] at hbytes
      rw [if_pos (hchainId.mpr (by rw [hid]; rfl)), hbytes]
      rfl

/-- With a whole header of a request, only the derivation of the address can fail. -/
theorem readFirstChunk_header (sdk : Sdk) :
    readFirstChunk sdk request.header BocContext.zero Memory.zero = (do
      let (address, _, dc) ← getAddress sdk request.accountNumber.toNat request.originWalletType
        BocContext.zero (Memory.zero.writeFields (headBlocks request.header))
      pure (request.header.length, BocContext.zero,
        dc.writeFields (tailBlocks request.header address))) := by
  obtain ⟨-, -, -, hpayload⟩ := request.header_positions
  rw [readFirstChunk_eq sdk _ _ ?_ (Nat.le_of_eq hpayload), hpayload, request.header_fields.1]
  · rfl
  · rw [tickerLen_header]
    exact ⟨Nat.ne_of_gt request.ticker_length.1, request.ticker_length.2⟩

/-- The request is in the context. Its address is the one of its account and original
wallet, which also stands for an absent address. -/
structure InContext (derived : Hash) (dc : DataContext) : Prop where
  accountNumber : dc.readUint DataContext.signTrContext.accountNumber = request.accountNumber.toNat
  originWalletType : dc.read DataContext.signTrContext.originWalletType = [request.originWalletType]
  currentWalletType : dc.read DataContext.signTrContext.currentWalletType =
    [request.currentWalletType.getD request.originWalletType]
  decimals : dc.read DataContext.signTrContext.decimals = [request.decimals]
  ticker : dc.read DataContext.signTrContext.ticker =
    request.ticker ++ List.replicate (maxTickerLen - request.ticker.length) 0
  wc : dc.read DataContext.signTrContext.wc = [request.workchainId.getD 0]
  address : dc.read DataContext.signTrContext.address = derived.toList
  prependAddress : dc.read DataContext.signTrContext.prependAddress =
    (request.address.getD derived).toList
  signWithChainId : dc.read DataContext.signTrContext.signWithChainId =
    [if request.chainId.isSome then 1 else 0]
  chainId : ∀ chainId, request.chainId = some chainId →
    dc.read DataContext.signTrContext.chainId = chainId.toList
  dataOffset : dc.readUint DataContext.signTrContext.dataOffset = request.payload.length
  data : (dc.read DataContext.signTrContext.data).take request.payload.length = request.payload

/-- The derivation of the address succeeds when that of the key does. -/
theorem getAddress_origin {sdk : Sdk} {publicKey : Hash}
    (hkey : getPublicKey sdk request.accountNumber.toNat = some publicKey) (dc : DataContext) :
    ∃ (address : Hash) (left : BocContext) (written : DataContext),
      getAddress sdk request.accountNumber.toNat request.originWalletType BocContext.zero dc =
        .ok (address, left, written) := by
  obtain ⟨type, htype⟩ := Option.isSome_iff_exists.mp request.originWalletType_valid
  obtain ⟨_, left, written, -, haddress⟩ := getAddress_digest hkey htype dc
  exact ⟨_, left, written, haddress⟩

theorem header_accepted {sdk : Sdk} {publicKey : Hash}
    (hkey : getPublicKey sdk request.accountNumber.toNat = some publicKey) :
    ∃ dc, readFirstChunk sdk request.header BocContext.zero Memory.zero =
      .ok (request.header.length, BocContext.zero, dc) := by
  obtain ⟨address, left, written, haddress⟩ := request.getAddress_origin hkey _
  rw [readFirstChunk_header, haddress]
  exact ⟨_, rfl⟩

/-- A part of a header is refused. -/
theorem header_refused {bytes more : List UInt8} (h : request.header = bytes ++ more)
    (hmore : more ≠ []) (sdk : Sdk) :
    readFirstChunk sdk bytes BocContext.zero Memory.zero = .error (.thrown .invalidRequest) ∨
      getPublicKey sdk request.accountNumber.toNat = none ∧
        readFirstChunk sdk bytes BocContext.zero Memory.zero =
          .error (.thrown .getPublicKeyFailed) := by
  obtain hrefused | hsame := readFirstChunk_givesUp sdk bytes more BocContext.zero Memory.zero
  · exact Or.inl hrefused
  · rw [← h] at hsame
    cases hkey : getPublicKey sdk request.accountNumber.toNat with
    | none =>
      obtain ⟨type, htype⟩ := Option.isSome_iff_exists.mp request.originWalletType_valid
      rw [hsame, readFirstChunk_header, getAddress_noKey hkey htype]
      exact Or.inr ⟨rfl, rfl⟩
    | some publicKey =>
      obtain ⟨dc, hdc⟩ := request.header_accepted hkey
      have hle := readFirstChunk_le (hsame.trans hdc)
      have hlength := congrArg List.length h
      have hpositive := List.length_pos_iff.mpr hmore
      rw [List.length_append] at hlength
      omega

end TransactionRequest

end EverscaleLedger.Properties
