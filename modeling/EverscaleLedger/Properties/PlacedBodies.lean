import EverscaleLedger.Properties.BodyPlacement

/-! Which bodies of a wallet transfer are displayed alike in both places. -/
namespace EverscaleLedger.Properties

open Library Source Slice

/-! Amounts that are shown. -/

/-- A plain amount is shown with a line that starts with a digit, if it fits. -/
theorem setAmount_normal_cases {amount ticker : List UInt8} {decimals : Nat} (hbyte : decimals < 256)
    (display : Display) :
    (AmountFits decimals ticker (readUintBE amount) ∧ ∃ text,
      CanonicalText decimals text (readUintBE amount) ∧
      setAmount amount amount.length normalFlag decimals ticker display =
        .ok { display with amountStr := some (amountField (text ++ ascii [' '] ++ cString ticker)) }) ∨
    (¬ AmountFits decimals ticker (readUintBE amount) ∧
      ∃ e, setAmount amount amount.length normalFlag decimals ticker display = .error e) := by
  cases setAmount_normal_ends hbyte display with
  | shown hfits hcanonical hset => exact Or.inl ⟨hfits, _, hcanonical, hset⟩
  | thrown hrefused hset =>
    refine Or.inr ⟨fun hfits => ?_, _, hset⟩
    exact Nat.not_lt_of_le hfits.length_le (hrefused hfits.number_lt).2.2
  | fault hnumber hpast hset =>
    refine Or.inr ⟨fun hfits => ?_, _, hset⟩
    exact hpast.elim (Nat.not_lt_of_le hfits.decimals_le) (fun hopen => hopen hfits.terminated)

/-- The shortest line is that of nothing. -/
theorem AmountFits.zero {decimals number : Nat} {ticker : List UInt8}
    (h : AmountFits decimals ticker number) : AmountFits decimals ticker 0 where
  decimals_le := h.decimals_le
  terminated := h.terminated
  number_lt := by decide
  length_le := by
    have hle := h.length_le
    have hzero : textLength 0 decimals = 1 := by
      simp [textLength, Decimal.wholeLength, Decimal.fractionLength]
    have hone : 1 ≤ textLength number decimals := by
      unfold textLength Decimal.wholeLength
      omega
    omega

/-- The line of a plain amount is not the one of all the balance. -/
theorem amountField_ne_allBalance {decimals number : Nat} {text ticker : List UInt8}
    (h : CanonicalText decimals text number) :
    amountField (text ++ ascii [' '] ++ cString ticker) ≠ amountField allBalanceText := by
  obtain ⟨-, -, whole, fraction, hcanonical, rfl⟩ := h
  obtain ⟨digit, rest, rfl⟩ : ∃ digit rest, whole = digit :: rest := by
    obtain rfl | ⟨first, rest, rfl, -⟩ := hcanonical.whole_lead
    · exact ⟨_, _, rfl⟩
    · exact ⟨_, _, rfl⟩
  have hdigit : digit < 10 := hcanonical.whole_digits digit List.mem_cons_self
  intro hsame
  have hhead := congrArg (fun field => (List.head? field).map UInt8.toNat) hsame
  change some (UInt8.ofNat (digit + '0'.toNat)).toNat = some 65 at hhead
  rw [digitChar_toNat hdigit] at hhead
  have hcode : digit + 48 = 65 := Option.some.inj hhead
  omega

/-! The conditions. -/

def tokenFunctionOf (body : List Bool) : Option TokenFunction :=
  TokenFunction.ofId (Bits.number (body.take 32))

/-- The bits that are read as the amount, and as the kind of the address. -/
def amountOf (body : List Bool) : Nat := Bits.number (Bits.window body 32 128)

def addressKindOf (body : List Bool) : List Bool := Bits.window body 160 2

/-- The body, completed to bytes, is no call of the token wallet. -/
def NoTokenCall (body : List Bool) : Prop :=
  body.length < 25 ∨ tokenFunctionOf (Bits.completed body) = none

/-- The body has a function id and, where they are shown, all the arguments of its
function, so that no reader goes on to another cell. -/
structure CarriesArguments (ctx : SignTransactionContext) (body : List Bool) : Prop where
  function : 32 ≤ body.length
  amount : tokenFunctionOf body ≠ none → AmountFits ctx.decimals ctx.ticker 0 → 160 ≤ body.length
  address : tokenFunctionOf body = some .transfer → 160 ≤ body.length →
    AmountFits ctx.decimals ctx.ticker (amountOf body) →
      410 ≤ body.length ∧ (body.length = 425 → addressKindOf body ≠ [true, false])

/-! Windows of bodies. -/

theorem window_append {bits : List Bool} {start count : Nat} (h : start + count ≤ bits.length)
    (more : List Bool) : Bits.window (bits ++ more) start count = Bits.window bits start count := by
  unfold Bits.window
  rw [List.drop_append_of_le_length (by omega), List.take_append_of_le_length]
  rw [List.length_drop]
  omega

theorem padding_cons {length : Nat} (h : length % 8 ≠ 0) :
    Bits.padding length = true :: List.replicate (7 - length % 8) false := if_neg h

/-- A header has one of three lengths, up to whole bytes. -/
theorem GiftHeader.length_cases (header : GiftHeader) :
    ((header.bits.length + 2) % 8 = 7 ∧ 119 ≤ header.bits.length + 2) ∨
    ((header.bits.length + 2) % 8 = 0 ∧ 384 ≤ header.bits.length + 2) ∨
    ((header.bits.length + 2) % 8 = 1 ∧ 649 ≤ header.bits.length + 2) := by
  have hlength : ∀ address : MessageAddress, address.bits.length = 2 ∨ address.bits.length = 267 := by
    intro address
    cases address with
    | none => exact Or.inl rfl
    | std wc account => exact Or.inr (MessageAddress.length_bits_std wc account)
  have hsource := hlength header.source
  have hrecipient := hlength header.recipient
  rw [header.length_bits]
  omega

section

variable {sdk : Sdk} {locals : Locals} {ctx : SignTransactionContext} {body : List Bool}

/-- A header leaves both forms with the same bits at the address. -/
theorem addressAt_placed {length : Nat} (hclass : length % 8 = 7 ∨ length % 8 = 0)
    (hlong : 410 ≤ body.length) (hkind : body.length = 425 → addressKindOf body ≠ [true, false])
    (wc : UInt8) (address : List UInt8) :
    addressAt ((body ++ Bits.padding (length + body.length)).drop 160) wc address =
      addressAt ((Bits.completed body).drop 160) wc address := by
  rw [Bits.completed_eq]
  have hinline := Bits.length_padding (length + body.length)
  have hreferring := Bits.length_padding body.length
  have htag : ∀ more, ((body ++ more).drop 160).take 2 = addressKindOf body :=
    fun more => window_append (by omega) more
  refine addressAt_congr ((htag _).trans (htag _).symm) (fun hstd => ?_) wc address
  rw [htag] at hstd
  simp only [List.length_drop, List.length_append, hinline, hreferring]
  obtain hshort | hlast | hlong := Nat.lt_trichotomy body.length 426
  · have hne : body.length ≠ 425 := fun heq => hkind heq hstd
    exact Or.inl (by omega)
  · -- one bit is missing, which both forms complete with a one
    have hwindow : ∀ total, total % 8 ≠ 0 →
        ((body ++ Bits.padding total).drop 160).take 267 = Bits.window (body ++ [true]) 160 267 := by
      intro total htotal
      rw [padding_cons htotal, ← List.singleton_append, ← List.append_assoc]
      refine window_append ?_ _
      rw [List.length_append, List.length_singleton]
      omega
    exact Or.inr ⟨by omega, by omega,
      (hwindow _ (by omega)).trans (hwindow _ (by omega)).symm⟩
  · have hwindow : ∀ more, ((body ++ more).drop 160).take 267 = Bits.window body 160 267 :=
      fun more => window_append (by omega) more
    exact Or.inr ⟨by omega, by omega, (hwindow _).trans (hwindow _).symm⟩

theorem BodyBits.amount_short {bits : BodyBits}
    (h : (bits.need (amountLength * 8)).bits.length < amountLength * 8) (display : Display) :
    bits.amount ctx display = none := if_pos h

/-- An amount that is there is shown if it fits. -/
theorem BodyBits.amount_cases {bits : BodyBits} (hbyte : ctx.decimals < 256)
    (hlong : amountLength * 8 ≤ (bits.need (amountLength * 8)).bits.length) (display : Display) :
    let number := Bits.number ((bits.need (amountLength * 8)).bits.take (amountLength * 8))
    (AmountFits ctx.decimals ctx.ticker number ∧ ∃ text, CanonicalText ctx.decimals text number ∧
      bits.amount ctx display = some ((bits.need (amountLength * 8)).advance (amountLength * 8),
        { display with amountStr := some (amountField (text ++ ascii [' '] ++ cString ctx.ticker)) })) ∨
    (¬ AmountFits ctx.decimals ctx.ticker number ∧ bits.amount ctx display = none) := by
  unfold BodyBits.amount
  generalize bits.need (amountLength * 8) = current at hlong ⊢
  have htaken : (current.bits.take (amountLength * 8)).length = amountLength * 8 := by
    rw [List.length_take, Nat.min_eq_left hlong]
  have hlength : (Bits.pack (current.bits.take (amountLength * 8))).length = amountLength := by
    rw [Bits.length_pack, htaken]
    rfl
  have hnumber : readUintBE (Bits.pack (current.bits.take (amountLength * 8))) =
      Bits.number (current.bits.take (amountLength * 8)) := by
    rw [readUintBE_eq, Bits.ofBytes_pack (by rw [htaken]; rfl)]
  have hcases := @setAmount_normal_cases (Bits.pack (current.bits.take (amountLength * 8)))
    ctx.ticker _ hbyte display
  rw [hlength, hnumber] at hcases
  simp only [if_neg (Nat.not_lt_of_le hlong)]
  obtain ⟨hfits, text, htext, hset⟩ | ⟨hfails, e, hset⟩ := hcases
  · exact Or.inl ⟨hfits, text, htext, by rw [hset]; rfl⟩
  · exact Or.inr ⟨hfails, by rw [hset]; rfl⟩

theorem BodyBits.amount_eq_none {bits : BodyBits} (hbyte : ctx.decimals < 256)
    (hfits : ¬ AmountFits ctx.decimals ctx.ticker 0) (display : Display) :
    bits.amount ctx display = none := by
  obtain hshort | hlong :=
    Nat.lt_or_ge (bits.need (amountLength * 8)).bits.length (amountLength * 8)
  · exact amount_short hshort display
  · obtain ⟨hamount, -⟩ | ⟨-, hnone⟩ := amount_cases hbyte hlong display
    · exact absurd hamount.zero hfits
    · exact hnone

theorem functionShown_eq_none {bits : BodyBits} {functionId : Nat} {display : Display}
    (hfunction : TokenFunction.ofId functionId ≠ none) (hamount : bits.amount ctx display = none) :
    functionShown sdk locals ctx functionId bits display = none := by
  unfold functionShown
  rw [hamount]
  cases hid : TokenFunction.ofId functionId with
  | none => exact absurd hid hfunction
  | some function => cases function <;> rfl

/-- A body that carries its arguments is read alike in both places. -/
theorem bodyShown_placed {length : Nat}
    (hclass : (length % 8 = 7 ∧ 119 ≤ length) ∨ (length % 8 = 0 ∧ 384 ≤ length) ∨
      (length % 8 = 1 ∧ 649 ≤ length)) (hlt : length + body.length < 1024)
    (hbyte : ctx.decimals < 256) (hcarries : CarriesArguments ctx body) (spare : List Bool)
    (display : Display) :
    bodyShown sdk locals ctx (body ++ Bits.padding (length + body.length)) spare display =
      bodyShown sdk locals ctx (Bits.padding length) (Bits.completed body) display := by
  have hfunction := hcarries.function
  have hinline := Bits.length_padding (length + body.length)
  have hreferring := Bits.length_padding body.length
  have hbefore := Bits.length_padding length
  rw [Bits.completed_eq, bodyShown_first (by rw [List.length_append]; omega),
    bodyShown_second (by omega) (by rw [List.length_append]; omega),
    List.take_append_of_le_length hfunction, List.take_append_of_le_length hfunction]
  change functionShown sdk locals ctx (Bits.number (body.take 32)) _ display =
    functionShown sdk locals ctx (Bits.number (body.take 32)) _ display
  by_cases hnone : tokenFunctionOf body = none
  · have hid : TokenFunction.ofId (Bits.number (body.take 32)) = none := hnone
    unfold functionShown
    rw [hid]
  by_cases hzero : AmountFits ctx.decimals ctx.ticker 0
  rotate_left
  · rw [functionShown_eq_none hnone (BodyBits.amount_eq_none hbyte hzero display),
      functionShown_eq_none hnone (BodyBits.amount_eq_none hbyte hzero display)]
  have hamount := hcarries.amount hnone hzero
  have hwindow : ∀ more, ((body ++ more).drop 32).take (amountLength * 8) = Bits.window body 32 128 :=
    fun more => @window_append body 32 128 (by omega) more
  refine functionShown_congr ?_ ?_ ((hwindow _).trans (hwindow _).symm) ?_
  · rw [List.length_drop, List.length_append]
    change 128 ≤ _
    omega
  · rw [List.length_drop, List.length_append]
    change 128 ≤ _
    omega
  · intro htransfer hset wc address
    have hcases := @BodyBits.amount_cases ctx ⟨body.drop 32, none⟩ hbyte
      (by rw [BodyBits.need, List.length_drop]; change 128 ≤ _; omega) display
    obtain ⟨hfits, -⟩ | ⟨-, hfails⟩ := hcases
    rotate_left
    · rw [BodyBits.amount_of_long (by rw [List.length_drop]; change 128 ≤ _; omega)] at hfails
      rw [hwindow] at hset
      obtain ⟨shown, hshown⟩ := hset
      rw [show (body.drop 32).take (amountLength * 8) = Bits.window body 32 128 from rfl, hshown]
        at hfails
      cases hfails
    obtain ⟨hlong, hkind⟩ := hcarries.address htransfer hamount hfits
    have hplaced := @addressAt_placed body length (by omega) hlong hkind wc address
    rw [Bits.completed_eq] at hplaced
    have hfirst : ((BodyBits.advance ⟨(body ++ Bits.padding (length + body.length)).drop 32, some spare⟩
        (amountLength * 8)).need (addressLength * 8)).bits =
          (body ++ Bits.padding (length + body.length)).drop 160 := by
      unfold BodyBits.need BodyBits.advance
      simp only [List.drop_drop]
      rw [if_neg]
      · rfl
      · rw [List.length_drop, List.length_append]
        change ¬ _ - 160 < 256
        omega
    rw [hfirst, hplaced]
    unfold BodyBits.need BodyBits.advance
    simp only [List.drop_drop]
    rfl

/-- A transfer that has its amount is shown if it has an address. -/
theorem functionShown_transfer {bits : BodyBits} {functionId : Nat} {display : Display}
    (hbyte : ctx.decimals < 256) (hfunction : TokenFunction.ofId functionId = some .transfer)
    (hlong : amountLength * 8 ≤ bits.bits.length)
    (hfits : AmountFits ctx.decimals ctx.ticker (Bits.number (bits.bits.take (amountLength * 8)))) :
    (functionShown sdk locals ctx functionId bits display).isSome =
      (addressAt ((bits.advance (amountLength * 8)).need (addressLength * 8)).bits 0
        locals.tokenAddress.toList).isSome := by
  have hneed := BodyBits.need_of_long hlong
  obtain ⟨-, text, -, hamount⟩ | ⟨hfails, -⟩ :=
    BodyBits.amount_cases hbyte (hneed.symm ▸ hlong) display
  rotate_left
  · rw [hneed] at hfails
    exact absurd hfits hfails
  unfold functionShown
  rw [hfunction, hamount, hneed]
  simp only [Option.bind_eq_bind, Option.bind_some]
  cases addressAt ((bits.advance (amountLength * 8)).need (addressLength * 8)).bits 0
    locals.tokenAddress.toList <;> rfl

/-- Zeros are nothing, sent to nobody. -/
theorem functionShown_zeros {bits : BodyBits} {functionId : Nat} {display : Display}
    (hbyte : ctx.decimals < 256)
    (hneed : bits.need (amountLength * 8) = ⟨List.replicate 136 false, none⟩)
    (hfits : AmountFits ctx.decimals ctx.ticker 0) :
    (functionShown sdk locals ctx functionId bits display).isSome = true := by
  obtain ⟨-, text, -, hamount⟩ | ⟨hfails, -⟩ :=
    @BodyBits.amount_cases ctx bits hbyte (by rw [hneed, List.length_replicate]; decide) display
  rotate_left
  · rw [hneed, List.take_replicate, Bits.number_replicate_false] at hfails
    exact absurd hfits hfails
  unfold functionShown
  rw [hamount, hneed]
  cases TokenFunction.ofId functionId with
  | none => rfl
  | some function => cases function <;> rfl

/-- A token function is not shown as a transfer of all the balance. -/
theorem functionShown_ne {bits : BodyBits} {functionId : Nat} {display : Display}
    (hbyte : ctx.decimals < 256) (hfunction : TokenFunction.ofId functionId ≠ none)
    (hall : display.amountStr = some (amountField allBalanceText)) :
    (functionShown sdk locals ctx functionId bits display).map strings ≠
      some (strings (.transfer, display)) := by
  unfold functionShown
  cases hid : TokenFunction.ofId functionId with
  | none => exact absurd hid hfunction
  | some function =>
    obtain hshort | hlong :=
      Nat.lt_or_ge (bits.need (amountLength * 8)).bits.length (amountLength * 8)
    · rw [BodyBits.amount_short hshort display]
      cases function <;> nofun
    obtain ⟨-, text, htext, hamount⟩ | ⟨-, hamount⟩ := BodyBits.amount_cases hbyte hlong display
    rotate_left
    · rw [hamount]
      cases function <;> nofun
    rw [hamount]
    cases function with
    | burn =>
      intro hsame
      cases congrArg Prod.fst (Option.some.inj hsame)
    | transfer =>
      simp only [Option.bind_eq_bind, Option.bind_some]
      cases addressAt (((bits.need (amountLength * 8)).advance (amountLength * 8)).need
          (addressLength * 8)).bits 0 locals.tokenAddress.toList with
      | none => nofun
      | some read =>
        intro hsame
        have hamounts := congrArg (fun shown => shown.2.1) (Option.some.inj hsame)
        change some _ = display.amountStr at hamounts
        rw [hall] at hamounts
        exact amountField_ne_allBalance htext (Option.some.inj hamounts)

end

/-! Cells that a body may refer to. -/

theorem addressAt_std {bits : List Bool} (h : bits.take 2 = [true, false]) (wc : UInt8)
    (address : List UInt8) :
    (addressAt bits wc address).isSome = decide (267 ≤ bits.length) := by
  unfold addressAt
  rw [h, if_neg (by decide)]
  by_cases hlong : 267 ≤ bits.length
  · rw [if_pos ⟨rfl, hlong⟩, decide_eq_true hlong]
    rfl
  · rw [if_neg fun hboth => hlong hboth.2, decide_eq_false hlong]
    rfl

section

variable {sdk : Sdk} {locals : Locals} {ctx : SignTransactionContext} {bits : List Bool}

theorem bodyShown_nothing (hbits : bits.length < 32) (display : Display) :
    bodyShown sdk locals ctx bits (List.replicate 32 false) display = some (.transfer, display) := by
  rw [bodyShown_second hbits (by simp), List.take_replicate, Bits.number_replicate_false]
  rfl

/-- A burn without an amount. -/
theorem bodyShown_bareBurn (hbits : bits.length < 32) (display : Display) :
    bodyShown sdk locals ctx bits (Bits.ofNat 32 1445284013) display = none := by
  rw [bodyShown_second hbits (by simp), List.take_of_length_le (by simp), Bits.number_ofNat]
  exact functionShown_eq_none (by decide) (BodyBits.amount_short (by decide) display)

end

/-! Messages that tell the two forms apart. -/

/-- A header without an amount. -/
def bareHeader (source recipient : MessageAddress) : GiftHeader where
  ihrDisabled := false
  bounce := false
  bounced := false
  source := source
  recipient := recipient
  amount := []
  currencies := false
  ihrFee := []
  fwdFee := []
  createdLt := 0
  createdAt := 0
  amount_length := no_bytes_lt
  ihrFee_length := no_bytes_lt
  fwdFee_length := no_bytes_lt

def someAddress : MessageAddress := .std 0 (Vector.replicate 32 0)

theorem length_nearHeader : (bareHeader .none .none).bits.length + 2 = 119 := by
  rw [GiftHeader.length_bits]
  rfl

theorem length_farHeader : (bareHeader someAddress someAddress).bits.length + 2 = 649 := by
  have hlength : someAddress.bits.length = 267 := MessageAddress.length_bits_std _ _
  rw [GiftHeader.length_bits, show (bareHeader someAddress someAddress).source = someAddress from rfl,
    show (bareHeader someAddress someAddress).recipient = someAddress from rfl, hlength]
  rfl

def bareDisplay (sdk : Sdk) (locals : Locals) (recipient : MessageAddress) : Display :=
  { setDstAddress sdk (recipient.read 0 locals.dstAddress.toList).1
      (recipient.read 0 locals.dstAddress.toList).2 Display.untouched with
    amountStr := some (amountField allBalanceText) }

theorem bareHeader_shown (sdk : Sdk) (locals : Locals) (ctx : SignTransactionContext)
    (source recipient : MessageAddress) :
    (bareHeader source recipient).shown sdk locals allBalanceFlag ctx Display.untouched =
      .ok (bareDisplay sdk locals recipient) := rfl

/-- All the balance is sent, with a body that has no references. -/
def plainMessage {body : List Bool} (header : GiftHeader)
    (hlength : header.bits.length + 2 + body.length < 1024) : GiftMessage body where
  expireAt := 0
  seqno := 0
  flags := 128
  header := header
  headerRefs := []
  bodyRefs := []
  below := []
  length_lt := hlength
  headerRefs_lt := by decide
  refs_le := by decide

/-- The same with a body that refers to a cell of these bits. -/
def referringMessage {body : List Bool} (header : GiftHeader)
    (hlength : header.bits.length + 2 + body.length < 1024) (spare : List Bool)
    (hspare : spare.length < 1024) : GiftMessage body where
  expireAt := 0
  seqno := 0
  flags := 128
  header := header
  headerRefs := []
  bodyRefs := [2]
  below := [.ordinary spare [] hspare no_refs_lt]
  length_lt := hlength
  headerRefs_lt := by decide
  refs_le := by decide

section

variable {body : List Bool} {header : GiftHeader}
  (hlength : header.bits.length + 2 + body.length < 1024)

theorem plainMessage_fits : (plainMessage header hlength).Fits where
  inlined := by
    refine OrdinaryBoc.of_plain ?_ (by decide : ForwardRefs [[1], []])
    exact List.forall_mem_cons.mpr ⟨rfl, List.forall_mem_singleton.mpr rfl⟩
  referring := by
    refine OrdinaryBoc.of_plain ?_ (by decide : ForwardRefs [[1], [2], []])
    exact List.forall_mem_cons.mpr ⟨rfl,
      List.forall_mem_cons.mpr ⟨rfl, List.forall_mem_singleton.mpr rfl⟩⟩

theorem referringMessage_fits {spare : List Bool} (hspare : spare.length < 1024) :
    (referringMessage header hlength spare hspare).Fits where
  inlined := by
    refine OrdinaryBoc.of_plain ?_ (by decide : ForwardRefs [[1], [2], []])
    exact List.forall_mem_cons.mpr ⟨rfl,
      List.forall_mem_cons.mpr ⟨rfl, List.forall_mem_singleton.mpr rfl⟩⟩
  referring := by
    refine OrdinaryBoc.of_plain ?_ (by decide : ForwardRefs [[1], [2], [3], []])
    exact List.forall_mem_cons.mpr ⟨rfl, List.forall_mem_cons.mpr ⟨rfl,
      List.forall_mem_cons.mpr ⟨rfl, List.forall_mem_singleton.mpr rfl⟩⟩⟩

end

/-! What the two forms of these messages say about a body. -/

section

variable {sdk : Sdk} {locals : Locals} {request : SigningRequest} {bc : BocContext}
  {body : List Bool} (hfamily : request.family = some .walletV3) (hindex : bc.publicKeyCellIndex = 0)

include hfamily hindex

theorem plainMessage_shown
    (hsame : ∀ m : GiftMessage body, m.refs = [] → m.Fits → m.SameScreens sdk locals request bc)
    {source recipient : MessageAddress} {length : Nat}
    (hlength : (bareHeader source recipient).bits.length + 2 = length)
    (hlt : length + body.length < 1024) :
    (bodyShown sdk locals request.ctx (Bits.padding length) (Bits.completed body)
      (bareDisplay sdk locals recipient)).map strings =
        some (strings (.transfer, bareDisplay sdk locals recipient)) := by
  subst hlength
  exact (((GiftMessage.sameScreens_iff hfamily hindex (plainMessage_fits hlt)).mp
    (hsame _ rfl (plainMessage_fits hlt))) _ (bareHeader_shown sdk locals request.ctx _ _)).symm

/-- A cell that the body refers to has no say. -/
theorem referringMessage_isSome
    (hsame : ∀ m : GiftMessage body, m.refs ≠ [] → m.Fits → m.SameScreens sdk locals request bc)
    {source recipient : MessageAddress} {length : Nat}
    (hlength : (bareHeader source recipient).bits.length + 2 = length)
    (hlt : length + body.length < 1024) {spare : List Bool} (hspare : spare.length < 1024)
    (haligned : spare.length % 8 = 0) :
    (bodyShown sdk locals request.ctx (body ++ Bits.padding (length + body.length)) spare
        (bareDisplay sdk locals recipient)).isSome =
      (bodyShown sdk locals request.ctx (Bits.padding length) (Bits.completed body)
        (bareDisplay sdk locals recipient)).isSome := by
  subst hlength
  have hfits := referringMessage_fits hlt hspare
  have hshown := (GiftMessage.sameScreens_iff hfamily hindex hfits).mp
    (hsame _ (List.cons_ne_nil _ _) hfits) _ (bareHeader_shown sdk locals request.ctx _ _)
  have hbits : (referringMessage (bareHeader source recipient) hlt spare hspare).spareBits =
      spare := by
    change Bits.ofBytes (Bits.pack (Bits.completed spare)) = spare
    rw [Bits.completed, if_pos haligned, Bits.ofBytes_pack haligned]
  have hsome := congrArg Option.isSome hshown
  rw [Option.isSome_map, Option.isSome_map] at hsome
  unfold GiftMessage.inlineShown GiftMessage.referringShown at hsome
  rw [hbits] at hsome
  exact hsome

/-- Whether a body without a function id is shown is up to the cell that it refers to. -/
theorem function_of_sameScreens (hlt : 119 + body.length < 1024)
    (hsame : ∀ m : GiftMessage body, m.refs ≠ [] → m.Fits → m.SameScreens sdk locals request bc) :
    32 ≤ body.length := by
  by_contra hshort
  have hfar : 649 + body.length < 1024 := by omega
  have hnothing := @referringMessage_isSome _ _ _ _ _ hfamily hindex hsame _ _ _ length_farHeader hfar
    (List.replicate 32 false) (by simp) (by simp)
  have hburn := @referringMessage_isSome _ _ _ _ _ hfamily hindex hsame _ _ _ length_farHeader hfar
    (Bits.ofNat 32 1445284013) (by simp) (by simp)
  have hbits : (body ++ Bits.padding (649 + body.length)).length < 32 := by
    rw [List.length_append, Bits.length_padding]
    omega
  rw [bodyShown_nothing hbits] at hnothing
  rw [← hnothing, bodyShown_bareBurn hbits] at hburn
  cases hburn

/-- Whether a call without all of its amount is shown is up to the cell that the body
refers to. -/
theorem amount_of_sameScreens (hlt : 119 + body.length < 1024) (hbyte : request.ctx.decimals < 256)
    (hsame : ∀ m : GiftMessage body, m.refs ≠ [] → m.Fits → m.SameScreens sdk locals request bc)
    (hid : 32 ≤ body.length) (hfunction : tokenFunctionOf body ≠ none)
    (hzero : AmountFits request.ctx.decimals request.ctx.ticker 0) : 160 ≤ body.length := by
  by_contra hshort
  have hfar : 649 + body.length < 1024 := by omega
  have hnothing := @referringMessage_isSome _ _ _ _ _ hfamily hindex hsame _ _ _ length_farHeader hfar
    (List.replicate 136 false) (by simp) (by simp)
  have hempty := @referringMessage_isSome _ _ _ _ _ hfamily hindex hsame _ _ _ length_farHeader hfar
    [] (by decide) (by decide)
  have hbits : (body ++ Bits.padding (649 + body.length)).length < 160 := by
    rw [List.length_append, Bits.length_padding]
    omega
  have hlong : 32 ≤ (body ++ Bits.padding (649 + body.length)).length := by
    rw [List.length_append]
    omega
  have hneed : ∀ spare, BodyBits.need ⟨(body ++ Bits.padding (649 + body.length)).drop 32, some spare⟩
      (amountLength * 8) = ⟨spare, none⟩ := by
    intro spare
    unfold BodyBits.need
    apply if_pos
    rw [List.length_drop]
    change _ < 128
    omega
  rw [bodyShown_first hlong, List.take_append_of_le_length hid] at hnothing hempty
  rw [functionShown_zeros hbyte (hneed _) hzero] at hnothing
  rw [← hnothing, functionShown_eq_none hfunction (BodyBits.amount_short (by rw [hneed]; decide) _)]
    at hempty
  cases hempty

/-- The same for the address of a transfer. A body of 425 bits carries one in a cell of
its own only, where the completion fills the last byte. -/
theorem address_of_sameScreens (hlt : 119 + body.length < 1024) (hbyte : request.ctx.decimals < 256)
    (hsame : ∀ m : GiftMessage body, m.refs ≠ [] → m.Fits → m.SameScreens sdk locals request bc)
    (htransfer : tokenFunctionOf body = some .transfer) (hamount : 160 ≤ body.length)
    (hfits : AmountFits request.ctx.decimals request.ctx.ticker (amountOf body)) :
    410 ≤ body.length ∧ (body.length = 425 → addressKindOf body ≠ [true, false]) := by
  have hspare := @referringMessage_isSome _ _ _ _ _ hfamily hindex hsame _ _ _ length_nearHeader hlt
  have hid : 32 ≤ body.length := by omega
  have hlong : ∀ more, amountLength * 8 ≤ ((body ++ more).drop 32).length := by
    intro more
    rw [List.length_drop, List.length_append]
    change 128 ≤ _
    omega
  have hwindow : ∀ more, ((body ++ more).drop 32).take (amountLength * 8) = Bits.window body 32 128 :=
    fun more => @window_append body 32 128 (by omega) more
  have hinline : ∀ spare display, (bodyShown sdk locals request.ctx
      (body ++ Bits.padding (119 + body.length)) spare display).isSome =
        (addressAt (BodyBits.need ⟨(body ++ Bits.padding (119 + body.length)).drop 160, some spare⟩
          (addressLength * 8)).bits 0 locals.tokenAddress.toList).isSome := by
    intro spare display
    rw [bodyShown_first (by rw [List.length_append]; omega), List.take_append_of_le_length hid,
      functionShown_transfer hbyte htransfer (hlong _) (by rw [hwindow]; exact hfits)]
    unfold BodyBits.advance
    rw [List.drop_drop]
    rfl
  constructor
  · by_contra hshort
    have hneed : ∀ spare, BodyBits.need
        ⟨(body ++ Bits.padding (119 + body.length)).drop 160, some spare⟩ (addressLength * 8) =
          ⟨spare, none⟩ := by
      intro spare
      unfold BodyBits.need
      apply if_pos
      rw [List.length_drop, List.length_append, Bits.length_padding]
      change _ < 256
      omega
    have hnobody := @hspare (List.replicate 8 false) (by decide) (by decide)
    have hempty := @hspare [] (by decide) (by decide)
    rw [hinline, hneed] at hnobody hempty
    rw [← hempty] at hnobody
    cases hnobody
  · intro hlength hstd
    have hpadding := Bits.length_padding body.length
    have htag : ∀ more, ((body ++ more).drop 160).take 2 = [true, false] :=
      fun more => (window_append (by omega) more).trans hstd
    have hlast : Bits.padding (119 + body.length) = [] := if_pos (by omega)
    have hreferring : ∀ display, (bodyShown sdk locals request.ctx (Bits.padding 119)
        (Bits.completed body) display).isSome = (addressAt ((body ++ Bits.padding body.length).drop 160)
          0 locals.tokenAddress.toList).isSome := by
      intro display
      rw [Bits.completed_eq, bodyShown_second (by rw [Bits.length_padding]; omega)
        (by rw [List.length_append]; omega), List.take_append_of_le_length hid,
        functionShown_transfer hbyte htransfer (hlong _) (by rw [hwindow]; exact hfits)]
      unfold BodyBits.advance
      rw [List.drop_drop]
      rfl
    have hempty := @hspare [] (by decide) (by decide)
    rw [hinline, hreferring, BodyBits.need_of_long, addressAt_std (htag _), addressAt_std (htag _),
      hlast, List.append_nil, List.length_drop, List.length_drop, List.length_append, hpadding,
      hlength] at hempty
    · cases hempty
    · rw [List.length_drop, List.length_append]
      change 256 ≤ _
      omega

theorem noTokenCall_of_sameScreens (hlt : 119 + body.length < 1024)
    (hbyte : request.ctx.decimals < 256)
    (hsame : ∀ m : GiftMessage body, m.refs = [] → m.Fits → m.SameScreens sdk locals request bc) :
    NoTokenCall body := by
  by_contra hcall
  obtain ⟨hlong, hfunction⟩ := not_or.mp hcall
  have hshown := @plainMessage_shown _ _ _ _ _ hfamily hindex hsame _ _ _ length_nearHeader hlt
  rw [bodyShown_second (by rw [Bits.length_padding]; omega) (by rw [Bits.length_completed]; omega)]
    at hshown
  exact functionShown_ne hbyte hfunction rfl hshown

theorem GiftMessage.sameScreens_of_noTokenCall {m : GiftMessage body} (hrefs : m.refs = [])
    (hfits : m.Fits) (hbody : NoTokenCall body) : m.SameScreens sdk locals request bc := by
  apply (GiftMessage.sameScreens_iff hfamily hindex hfits).mpr
  intro display _
  congr 1
  rw [inlineShown, if_pos hrefs, referringShown]
  have hpadding : (Bits.padding (m.header.bits.length + 2)).length < 32 := by
    rw [Bits.length_padding]
    omega
  by_cases hshort : body.length < 25
  · exact (bodyShown_empty hpadding (by rw [Bits.length_completed]; omega) display).symm
  · have hnone : TokenFunction.ofId (Bits.number ((Bits.completed body).take 32)) = none :=
      hbody.resolve_left hshort
    rw [bodyShown_second hpadding (by rw [Bits.length_completed]; omega), functionShown, hnone]

theorem GiftMessage.sameScreens_of_carriesArguments {m : GiftMessage body} (hrefs : m.refs ≠ [])
    (hfits : m.Fits) (hbyte : request.ctx.decimals < 256)
    (hbody : CarriesArguments request.ctx body) : m.SameScreens sdk locals request bc := by
  apply (GiftMessage.sameScreens_iff hfamily hindex hfits).mpr
  intro display _
  congr 1
  rw [inlineShown, if_neg hrefs]
  exact bodyShown_placed m.header.length_cases m.length_lt hbyte hbody _ display

end

/-- A token transfer with all its arguments. -/
def tokenTransfer : List Bool :=
  Bits.ofNat 32 1944199491 ++ (Bits.ofNat 128 5 ++ someAddress.bits)

theorem GiftMessage.not_sameScreens {sdk : Sdk} {locals : Locals} {request : SigningRequest}
    {bc : BocContext} {body : List Bool} {m : GiftMessage body} {display : Display}
    (hfamily : request.family = some .walletV3) (hindex : bc.publicKeyCellIndex = 0)
    (hfits : m.Fits)
    (hshown : m.header.shown sdk locals m.flags.toNat request.ctx Display.untouched = .ok display)
    (hne : (m.inlineShown sdk locals request.ctx display).map strings ≠
      (m.referringShown sdk locals request.ctx display).map strings) :
    ¬ m.SameScreens sdk locals request bc :=
  fun hsame => hne ((sameScreens_iff hfamily hindex hfits).mp hsame display hshown)

/-- A burn of five units. -/
def burnBody : List Bool := Bits.ofNat 32 1445284013 ++ Bits.ofNat 128 5

def burnMessage : GiftMessage burnBody := plainMessage (bareHeader .none .none) (by decide +kernel)

/-- A body without bits, that refers to a cell with the id of a function. -/
def emptyMessage : GiftMessage [] :=
  referringMessage (bareHeader .none .none) (by decide) (Bits.ofNat 32 1445284013) (by decide)

end EverscaleLedger.Properties
