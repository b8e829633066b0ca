import W2uos.Data.Feeds
import W2uos.Exec.Okx

/-!
# Instrument identifiers

An order and the subscription to the tickers name an instrument by the base and the quote of its
symbol in upper case, with a dash between them.  The two streams go back from an identifier to a
symbol: they split it at its dashes and take the first two parts.  So they accept identifiers of
more parts, such as those of derivatives, and give them the symbol of the spot pair.

* `parseSymbol_eq_ok_iff`, `OkxMarketStream.parseSymbol_eq_ok_iff` : what the streams read;
* `exists_shorter_iff` : which identifiers share their symbol with a pair;
* `instIdsRoundTrip_iff` : exactly which identifiers go back and forth.
-/

namespace W2uos

section Instruments

variable [CaseTable] {id : String} {symbol : Symbol}

/-- `format!("{}-{}", base.to_uppercase(), quote.to_uppercase())`. -/
def formatInstId (symbol : Symbol) : String :=
  toUppercase symbol.base ++ "-" ++ toUppercase symbol.quote

/-- An argument of the subscription to the tickers. -/
structure SubscribeArg where
  channel : String
  instId : String
  deriving DecidableEq

/-- The arguments of the subscription, in `OkxMarketStream::run`. -/
def OkxMarketStream.subscribeArgs (subscriptions : List MarketDataSubscription) :
    List SubscribeArg :=
  subscriptions.map fun sub => { channel := "tickers", instId := formatInstId sub.symbol }

theorem orderRequest_instId {client : OkxClient} {cmd : OrderCommand} {request : OkxOrderRequest}
    (h : client.orderRequest cmd = .ok request) : request.instId = formatInstId cmd.symbol := by
  unfold OkxClient.orderRequest at h
  cases hpassphrase : client.credentials.passphrase with
  | none =>
    rw [hpassphrase] at h
    cases h
  | some passphrase =>
    rw [hpassphrase] at h
    cases h
    rfl

/-- The dash stays a dash in upper case, and no other character becomes one. -/
def CaseTable.KeepsDash (table : CaseTable) : Prop :=
  table.upper '-' = ['-'] ∧ ∀ c, c ≠ '-' → '-' ∉ table.upper c

/-- The symbol has no dashes. -/
def Symbol.DashFree (symbol : Symbol) : Prop :=
  '-' ∉ symbol.base.toList ∧ '-' ∉ symbol.quote.toList

/-- The symbol in upper case. -/
def Symbol.upper (symbol : Symbol) : Symbol :=
  { base := toUppercase symbol.base, quote := toUppercase symbol.quote }

/-- Base and quote are the first two parts of the identifier, which has this behind them. -/
def Symbol.Heads (symbol : Symbol) (id : String) (more : List Char) : Prop :=
  symbol.DashFree ∧
    id.toList = symbol.base.toList ++ '-' :: (symbol.quote.toList ++ more) ∧
    (more = [] ∨ ∃ rest, more = '-' :: rest)

/-- The dashes of an identifier. -/
def dashes (id : String) : ℕ := id.toList.count '-'

/-- Identifiers and symbols go back and forth: an identifier of the set that is read is that of its
symbol but for the case of letters, two of the set in upper case are not read as the same symbol,
and the identifier of a symbol is read as the symbol in upper case. -/
structure InstIdsRoundTrip (parse : String → Except String Symbol) (ids : Set String) : Prop where
  format_parse : ∀ id ∈ ids, ∀ symbol, parse id = .ok symbol → formatInstId symbol = toUppercase id
  injective : ∀ id ∈ ids, ∀ id' ∈ ids, toUppercase id = id → toUppercase id' = id' →
    ∀ symbol, parse id = .ok symbol → parse id' = .ok symbol → id = id'
  parse_format : ∀ symbol : Symbol, symbol.DashFree →
    parse (formatInstId symbol) = .ok symbol.upper

/-! ### What the streams read -/

omit [CaseTable] in
theorem parseSymbol_market_iff :
    OkxMarketStream.parseSymbol id = .ok symbol ↔ parseSymbol id = .ok symbol := by
  unfold OkxMarketStream.parseSymbol parseSymbol
  cases id.toList.splitOn '-' with
  | nil => simp
  | cons base parts =>
    cases parts with
    | nil => simp
    | cons quote more => rfl

omit [CaseTable] in
theorem exists_first_dash {cs : List Char} (h : '-' ∈ cs) :
    ∃ part rest, '-' ∉ part ∧ cs = part ++ '-' :: rest := by
  induction cs with
  | nil => cases h
  | cons c cs ih =>
    by_cases hc : c = '-'
    · exact ⟨[], cs, List.not_mem_nil, by rw [hc, List.nil_append]⟩
    · obtain ⟨part, rest, hpart, rfl⟩ := ih ((List.mem_cons.1 h).resolve_left (Ne.symm hc))
      refine ⟨c :: part, rest, ?_, List.cons_append.symm⟩
      rw [List.mem_cons, not_or]
      exact ⟨Ne.symm hc, hpart⟩

omit [CaseTable] in
/-- **What the private stream reads**: the first two parts of an identifier. -/
theorem parseSymbol_eq_ok_iff :
    parseSymbol id = .ok symbol ↔ ∃ more, symbol.Heads id more := by
  unfold parseSymbol
  constructor
  · intro h
    by_cases hfirst : '-' ∈ id.toList
    · obtain ⟨base, rest, hbase, hid⟩ := exists_first_dash hfirst
      rw [hid, List.splitOn_append_cons_self_of_not_mem hbase] at h
      by_cases hsecond : '-' ∈ rest
      · obtain ⟨quote, more, hquote, rfl⟩ := exists_first_dash hsecond
        rw [List.splitOn_append_cons_self_of_not_mem hquote] at h
        cases h
        exact ⟨'-' :: more, ⟨by simpa, by simpa⟩, by simpa using hid, Or.inr ⟨more, rfl⟩⟩
      · rw [List.splitOn_eq_singleton hsecond] at h
        cases h
        exact ⟨[], ⟨by simpa, by simpa⟩, by simpa using hid, Or.inl rfl⟩
    · rw [List.splitOn_eq_singleton hfirst] at h
      cases h
  · rintro ⟨more, ⟨hbase, hquote⟩, hid, rfl | ⟨rest, rfl⟩⟩
    · rw [hid, List.append_nil, List.splitOn_append_cons_self_of_not_mem hbase,
        List.splitOn_eq_singleton hquote]
      simp
    · rw [hid, List.splitOn_append_cons_self_of_not_mem hbase,
        List.splitOn_append_cons_self_of_not_mem hquote]
      simp

/-! ### Upper case -/

/-- The characters of a text in upper case. -/
def upperChars (cs : List Char) : List Char := cs.flatMap CaseTable.upper

theorem toList_toUppercase (s : String) : (toUppercase s).toList = upperChars s.toList := by
  rw [toUppercase, String.toList_ofList, upperChars]

theorem upperChars_append (cs ds : List Char) :
    upperChars (cs ++ ds) = upperChars cs ++ upperChars ds := List.flatMap_append

theorem toList_formatInstId (symbol : Symbol) :
    (formatInstId symbol).toList =
      upperChars symbol.base.toList ++ '-' :: upperChars symbol.quote.toList := by
  rw [formatInstId, String.toList_append, String.toList_append, toList_toUppercase,
    toList_toUppercase, List.append_assoc]
  rfl

variable (hkeeps : CaseTable.KeepsDash ‹CaseTable›)

include hkeeps

theorem upperChars_dash (cs : List Char) : upperChars ('-' :: cs) = '-' :: upperChars cs := by
  rw [upperChars, List.flatMap_cons, hkeeps.1, List.singleton_append, upperChars]

theorem notMem_upperChars {cs : List Char} (h : '-' ∉ cs) : '-' ∉ upperChars cs := by
  unfold upperChars
  rw [List.mem_flatMap]
  rintro ⟨c, hc, hdash⟩
  have hne : c ≠ '-' := fun heq => h (heq ▸ hc)
  exact hkeeps.2 c hne hdash

theorem Symbol.DashFree.upper (h : symbol.DashFree) : symbol.upper.DashFree := by
  unfold Symbol.DashFree Symbol.upper
  rw [toList_toUppercase, toList_toUppercase]
  exact ⟨notMem_upperChars hkeeps h.1, notMem_upperChars hkeeps h.2⟩

/-! ### Back and forth -/

/-- The identifier of the symbol is the one it was read from, but for the case of letters, exactly
if nothing is behind the two parts. -/
theorem formatInstId_eq_iff {more : List Char} (h : symbol.Heads id more) :
    formatInstId symbol = toUppercase id ↔ more = [] := by
  obtain ⟨-, hid, hmore⟩ := h
  have hchars : upperChars id.toList =
      upperChars symbol.base.toList ++
        '-' :: (upperChars symbol.quote.toList ++ upperChars more) := by
    rw [hid, upperChars_append, upperChars_dash hkeeps, upperChars_append]
  rw [← String.toList_inj, toList_formatInstId, toList_toUppercase, hchars,
    List.append_cancel_left_eq, List.cons.injEq, List.self_eq_append_right]
  rcases hmore with rfl | ⟨rest, rfl⟩
  · exact iff_of_true ⟨rfl, rfl⟩ rfl
  · rw [upperChars_dash hkeeps]
    simp

omit hkeeps [CaseTable] in
theorem dashes_of_heads {more : List Char} (h : symbol.Heads id more) :
    dashes id = 1 + more.count '-' := by
  obtain ⟨⟨hbase, hquote⟩, hid, -⟩ := h
  rw [dashes, hid, List.count_append, List.count_cons_self, List.count_append,
    List.count_eq_zero_of_not_mem hbase, List.count_eq_zero_of_not_mem hquote]
  omega

omit hkeeps [CaseTable] in
theorem heads_nil_iff {more : List Char} (h : symbol.Heads id more) :
    more = [] ↔ dashes id ≤ 1 := by
  rw [dashes_of_heads h]
  obtain ⟨-, -, rfl | ⟨rest, rfl⟩⟩ := h
  · simp
  · simp

/-- The identifier of a symbol without dashes is read as the symbol in upper case. -/
theorem parseSymbol_formatInstId (h : symbol.DashFree) :
    parseSymbol (formatInstId symbol) = .ok symbol.upper := by
  refine parseSymbol_eq_ok_iff.2 ⟨[], h.upper hkeeps, ?_, Or.inl rfl⟩
  rw [toList_formatInstId, List.append_nil, Symbol.upper, toList_toUppercase, toList_toUppercase]

omit hkeeps [CaseTable] in
theorem exists_symbol_iff {id : String} :
    (∃ symbol, parseSymbol id = .ok symbol) ↔ 1 ≤ dashes id := by
  constructor
  · rintro ⟨symbol, hsymbol⟩
    obtain ⟨more, hheads⟩ := parseSymbol_eq_ok_iff.1 hsymbol
    rw [dashes_of_heads hheads]
    omega
  · intro hdash
    obtain ⟨base, rest, hbase, hid⟩ := exists_first_dash (List.count_pos_iff.1 hdash)
    unfold parseSymbol
    rw [hid, List.splitOn_append_cons_self_of_not_mem hbase]
    cases hrest : rest.splitOn '-' with
    | nil => exact absurd hrest (List.splitOn_ne_nil _ _)
    | cons quote more => exact ⟨_, rfl⟩

omit hkeeps [CaseTable] in
/-- **Which identifiers share their symbol with a pair**: those with a part behind the first two. -/
theorem exists_shorter_iff {id : String} {symbol : Symbol} (h : parseSymbol id = .ok symbol) :
    (∃ id', id' ≠ id ∧ dashes id' = 1 ∧ parseSymbol id' = .ok symbol) ↔ 1 < dashes id := by
  obtain ⟨more, hheads⟩ := parseSymbol_eq_ok_iff.1 h
  rw [← not_le, ← heads_nil_iff hheads]
  constructor
  · rintro ⟨id', hne, hone, hid'⟩ rfl
    obtain ⟨more', hheads'⟩ := parseSymbol_eq_ok_iff.1 hid'
    have hnil : more' = [] := (heads_nil_iff hheads').2 hone.le
    apply hne
    rw [← String.toList_inj, hheads'.2.1, hheads.2.1, hnil]
  · intro hmore
    have hpair : symbol.Heads (symbol.base ++ "-" ++ symbol.quote) [] := by
      refine ⟨hheads.1, ?_, Or.inl rfl⟩
      simp
    refine ⟨symbol.base ++ "-" ++ symbol.quote, ?_, dashes_of_heads hpair,
      parseSymbol_eq_ok_iff.2 ⟨[], hpair⟩⟩
    rintro rfl
    have hone := (heads_nil_iff hheads).not.1 hmore
    exact hone (dashes_of_heads hpair).le

omit hkeeps in
/-- A decoder that reads what `parseSymbol` reads goes back and forth exactly on identifiers of one
dash. -/
theorem instIdsRoundTrip_iff_of_reads (hkeeps : CaseTable.KeepsDash ‹CaseTable›)
    {parse : String → Except String Symbol}
    (hparse : ∀ id symbol, parse id = .ok symbol ↔ parseSymbol id = .ok symbol)
    (ids : Set String) : InstIdsRoundTrip parse ids ↔ ∀ id ∈ ids, dashes id ≤ 1 := by
  constructor
  · rintro ⟨hformat, -, -⟩ id hid
    by_contra hmany
    obtain ⟨symbol, hsymbol⟩ := exists_symbol_iff.2 (show 1 ≤ dashes id by omega)
    obtain ⟨more, hheads⟩ := parseSymbol_eq_ok_iff.1 hsymbol
    have hnil := (formatInstId_eq_iff hkeeps hheads).1
      (hformat id hid symbol ((hparse id symbol).2 hsymbol))
    exact hmany ((heads_nil_iff hheads).1 hnil)
  · intro hone
    have hpair : ∀ id ∈ ids, ∀ symbol, parse id = .ok symbol → symbol.Heads id [] := by
      intro id hid symbol hsymbol
      obtain ⟨more, hheads⟩ := parseSymbol_eq_ok_iff.1 ((hparse id symbol).1 hsymbol)
      have hnil : more = [] := (heads_nil_iff hheads).2 (hone id hid)
      rwa [hnil] at hheads
    refine ⟨?_, ?_, ?_⟩
    · intro id hid symbol hsymbol
      exact (formatInstId_eq_iff hkeeps (hpair id hid symbol hsymbol)).2 rfl
    · intro id hid id' hid' _ _ symbol hsymbol hsymbol'
      rw [← String.toList_inj, (hpair id hid symbol hsymbol).2.1,
        (hpair id' hid' symbol hsymbol').2.1]
    · intro symbol hfree
      exact (hparse _ _).2 (parseSymbol_formatInstId hkeeps hfree)

omit hkeeps in
/-- **Exactly which identifiers go back and forth**, on both streams: those with at most one dash,
that is, with no part behind the base and the quote. -/
theorem instIdsRoundTrip_iff (hkeeps : CaseTable.KeepsDash ‹CaseTable›) (ids : Set String) :
    (InstIdsRoundTrip parseSymbol ids ↔ ∀ id ∈ ids, dashes id ≤ 1) ∧
      (InstIdsRoundTrip OkxMarketStream.parseSymbol ids ↔ ∀ id ∈ ids, dashes id ≤ 1) :=
  ⟨instIdsRoundTrip_iff_of_reads hkeeps (fun _ _ => Iff.rfl) ids,
    instIdsRoundTrip_iff_of_reads hkeeps (fun _ _ => parseSymbol_market_iff) ids⟩

end Instruments

theorem asciiCase_keepsDash : CaseTable.KeepsDash asciiCase := by
  refine ⟨rfl, fun c hc hdash => ?_⟩
  have h : '-' = c.toUpper := List.mem_singleton.1 hdash
  unfold Char.toUpper at h
  split_ifs at h with hlower
  · -- no letter is a dash in upper case
    have hval := congrArg Char.val h.symm
    dsimp only at hval
    rw [UInt32.eq_sub_iff_add_eq.2 hval] at hlower
    exact absurd hlower (by decide)
  · exact hc h.symm

/-- The pairs of two markets go back and forth. -/
theorem instIdsRoundTrip_iff_sample :
    @InstIdsRoundTrip asciiCase parseSymbol {"BTC-USDT", "eth-usdt"} ∧
      @InstIdsRoundTrip asciiCase OkxMarketStream.parseSymbol {"BTC-USDT", "eth-usdt"} := by
  have hpairs : ∀ id ∈ ({"BTC-USDT", "eth-usdt"} : Set String), dashes id ≤ 1 := by
    rintro id (rfl | rfl)
    · decide
    · decide
  have hiff := @instIdsRoundTrip_iff asciiCase asciiCase_keepsDash {"BTC-USDT", "eth-usdt"}
  exact ⟨hiff.1.2 hpairs, hiff.2.2 hpairs⟩

/-- **A derivative taken for its spot pair**: the identifier of the swap is read as the symbol of
the pair, and the symbol gives back the identifier of the pair. -/
theorem not_instIdsRoundTrip :
    parseSymbol "BTC-USDT-SWAP" = .ok ⟨"BTC", "USDT"⟩ ∧
      parseSymbol "BTC-USDT" = .ok ⟨"BTC", "USDT"⟩ ∧
      @formatInstId asciiCase ⟨"BTC", "USDT"⟩ = "BTC-USDT" ∧
      ¬ @InstIdsRoundTrip asciiCase parseSymbol {"BTC-USDT", "BTC-USDT-SWAP"} ∧
      ¬ @InstIdsRoundTrip asciiCase OkxMarketStream.parseSymbol {"BTC-USDT", "BTC-USDT-SWAP"} := by
  have hswap : parseSymbol "BTC-USDT-SWAP" = .ok ⟨"BTC", "USDT"⟩ := by decide
  have hpair : parseSymbol "BTC-USDT" = .ok ⟨"BTC", "USDT"⟩ := by decide
  refine ⟨hswap, hpair, by decide, ?_, ?_⟩
  · rintro ⟨-, hinjective, -⟩
    have heq := hinjective "BTC-USDT" (by simp) "BTC-USDT-SWAP" (by simp) (by decide) (by decide)
      _ hpair hswap
    exact absurd heq (by decide)
  · rintro ⟨-, hinjective, -⟩
    have heq := hinjective "BTC-USDT" (by simp) "BTC-USDT-SWAP" (by simp) (by decide) (by decide)
      _ (parseSymbol_market_iff.2 hpair) (parseSymbol_market_iff.2 hswap)
    exact absurd heq (by decide)

end W2uos
