import EverscaleLedger.Properties.OrdinaryBoc
import EverscaleLedger.Properties.PrefixedCell

/-! `prepare_to_sign` on an ordinary bag of cells: it ends as its decoders do. -/
namespace EverscaleLedger.Properties

open Library Source

/-- The call fails as the decoders do, or succeeds with what they decoded. -/
def EndsAs (result : Outcome Prepared) (decoded : Outcome Decoded) : Prop :=
  match decoded with
  | .ok d => ∃ p, result = .ok p ∧ p.decoded = d
  | .error e => result = .error e

theorem EndsAs.bind {decoded : Outcome Decoded} {next : Decoded → Outcome Prepared}
    (h : ∀ d, decoded = .ok d → ∃ p, next d = .ok p ∧ p.decoded = d) :
    EndsAs (decoded >>= next) decoded := by
  cases decoded with
  | error e => rfl
  | ok d => exact h d rfl

/-- The root leaves room for the address in front of its data. -/
structure LeavesRoom (root : RawCell) (prependAddress : List UInt8) : Prop where
  address : prependAddress.length = addressLength
  data_ne : root.data ≠ []
  data_length : root.data.length ≤ 94
  prefixed_length : (root.bits.length + 267 + 7) / 8 + root.refs.length ≤ 128

/-- What makes a list of cells ordinary is in the first descriptor bytes and the
references of its cells. -/
theorem OrdinaryBoc.replaceRoot {root prefixed : RawCell} {below : List RawCell}
    (boc : OrdinaryBoc (root :: below)) (hd1 : prefixed.d1 = root.d1)
    (hrefs : prefixed.refs = root.refs) : OrdinaryBoc (prefixed :: below) where
  length_pos := Nat.succ_pos _
  length_le := boc.length_le
  ordinary c hc := by
    obtain rfl | hc := List.mem_cons.mp hc
    · exact hd1 ▸ boc.ordinary root List.mem_cons_self
    · exact boc.ordinary c (List.mem_cons_of_mem _ hc)
  refs_le c hc := by
    obtain rfl | hc := List.mem_cons.mp hc
    · exact hrefs ▸ boc.refs_le root List.mem_cons_self
    · exact boc.refs_le c (List.mem_cons_of_mem _ hc)
  refs i r hr := by
    cases i using Fin.cases with
    | zero => exact boc.refs 0 r (hrefs ▸ hr)
    | succ i => exact boc.refs i.succ r hr

/-- References that a list of cells may have: to later cells of the list. -/
structure ForwardRefs (refs : List (List UInt8)) : Prop where
  length_pos : 0 < refs.length
  length_le : refs.length ≤ maxContractCellsCount
  refs_le : ∀ own ∈ refs, own.length ≤ maxReferencesCount
  later : ∀ i : Fin refs.length, ∀ r ∈ refs[i], i < r.toNat ∧ r.toNat < refs.length

instance (refs : List (List UInt8)) : Decidable (ForwardRefs refs) :=
  decidable_of_iff ((0 < refs.length ∧ refs.length ≤ maxContractCellsCount) ∧
      (∀ own ∈ refs, own.length ≤ maxReferencesCount) ∧
      ∀ i : Fin refs.length, ∀ r ∈ refs[i], i < r.toNat ∧ r.toNat < refs.length)
    ⟨fun h => ⟨h.1.1, h.1.2, h.2.1, h.2.2⟩,
      fun h => ⟨⟨h.length_pos, h.length_le⟩, h.refs_le, h.later⟩⟩

/-- A first descriptor byte that announces references and nothing else. -/
def RawCell.Plain (c : RawCell) : Prop := c.d1 = UInt8.ofNat c.refs.length

theorem OrdinaryBoc.of_plain {cells : List RawCell} (hplain : ∀ c ∈ cells, c.Plain)
    (hrefs : ForwardRefs (cells.map RawCell.refs)) : OrdinaryBoc cells where
  length_pos := by simpa using hrefs.length_pos
  length_le := by simpa using hrefs.length_le
  ordinary c hc := by
    have hle := hrefs.refs_le _ (List.mem_map_of_mem hc)
    have hall : ∀ count ≤ maxReferencesCount, (UInt8.ofNat count).toNat &&& 0b00011000 = 0 := by
      decide
    rw [show c.d1 = _ from hplain c hc]
    exact hall _ hle
  refs_le c hc := hrefs.refs_le _ (List.mem_map_of_mem hc)
  refs i r hr := by
    have hlater := hrefs.later ⟨i, by simp⟩ r (by simpa using hr)
    simpa using hlater

theorem OrdinaryBoc.endsAs {root : RawCell} {below : List RawCell}
    (boc : OrdinaryBoc (root :: below)) (sdk : Sdk) (locals : Locals) {request : SigningRequest}
    {family : WalletFamily} (hfamily : request.family = some family)
    (hroom : family = .prefixedContract → LeavesRoom root request.prependAddress)
    {bc : BocContext} (hindex : bc.publicKeyCellIndex = 0) (header : BocHeader) (tail : List UInt8)
    {src : ByteStream} (hcursor : src.getCursor = header.bytes
      (UInt8.ofNat (root :: below).length) ++ (serializeCells (root :: below) ++ tail)) :
    ∃ parsed, Parsed parsed (root :: below) ∧ EndsAs (request.prepare sdk locals bc src)
      (decodeFor sdk locals request parsed root.slice family) := by
  obtain ⟨next, parsed, hparse, hparsed, -, -, hkey⟩ := boc.parsed bc header tail hcursor
  obtain ⟨rest, hroot⟩ := hparsed.holds rootCellIndex root rfl
  rw [hindex] at hkey
  refine ⟨parsed, hparsed, ?_⟩
  have hcount : parsed.cellsCount > rootCellIndex := by
    rw [hparsed.count]
    exact Nat.succ_pos _
  unfold SigningRequest.family at hfamily
  unfold SigningRequest.prepare prepareToSign
  rw [hparse, ok_bind]
  simp only
  rw [validate_of_true hcount, ok_bind, hroot.fromCell, ok_bind, hfamily]
  cases family with
  | walletV3 =>
    have hhash := boc.calcCellHashes_eq sdk hparsed (Or.inl hkey)
    apply EndsAs.bind
    intro d _
    rw [preparePayloadHash_eq_ok.mpr ⟨hhash, rfl⟩]
    exact ⟨_, rfl, rfl⟩
  | contract =>
    have hhash := boc.calcCellHashes_eq sdk hparsed (Or.inl hkey)
    apply EndsAs.bind
    intro d _
    rw [preparePayloadHash_eq_ok.mpr ⟨hhash, rfl⟩]
    exact ⟨_, rfl, rfl⟩
  | prefixedContract =>
    have hleaves := hroom rfl
    obtain ⟨cell, prefixed, tail', hcell, hholds, -, hd1, hrefs, -⟩ :=
      prependAddressToCell_root request.wc hroot (Vector.length_toList ..)
        hleaves.address hleaves.data_ne root.bitLen_eq (boc.refs_le root List.mem_cons_self)
        hleaves.data_length hleaves.prefixed_length
    have hset : Parsed (parsed.setCell rootCellIndex cell) (prefixed :: below) := by
      refine ⟨hparsed.count, fun i c hc => ?_⟩
      cases i with
      | zero =>
        obtain rfl := Option.some.inj hc
        exact ⟨tail', hholds⟩
      | succ i => exact hparsed.holds (i + 1) c hc
    have hhash := (boc.replaceRoot hd1 hrefs).calcCellHashes_eq sdk hset (Or.inl hkey)
    apply EndsAs.bind
    intro d _
    rw [hcell, ok_bind, preparePayloadHash_eq_ok.mpr ⟨hhash, rfl⟩]
    exact ⟨_, rfl, rfl⟩

end EverscaleLedger.Properties
