import W2uos.Backtest.RoundTrip

/-!
# Symbols in backtest requests

A request names its symbols by texts.  `parse_symbol` splits a text at the first slash; a longer one
without a slash it splits behind its third byte, and a shorter one is taken for a base.  The third
byte need not be the last one of a character: then `split_at` panics, and the request with it.

* `splitAt_eq_some_iff`, `splitOnce_eq_some_iff` : what the library functions do;
* `parsedBack_iff`, `requestParses_iff` : exactly when a text, and a request, is parsed.
-/

namespace W2uos

/-- A character of the text ends at the byte `n`, or the text begins there. -/
def CharBoundary (n : ℕ) (cs : List Char) : Prop :=
  ∃ before behind, cs = before ++ behind ∧ (before.map Char.utf8Size).sum = n

/-! ### Splitting -/

variable {cs before behind : List Char} {n : ℕ} {sep : Char}

/-- `str::split_at` gives the characters before and behind a boundary. -/
theorem splitAt_eq_some_iff :
    splitAt cs n = some (before, behind) ↔
      cs = before ++ behind ∧ (before.map Char.utf8Size).sum = n := by
  induction cs, n using splitAt.induct generalizing before behind with
  | case1 cs =>
    rw [splitAt]
    constructor
    · intro h
      cases h
      exact ⟨rfl, rfl⟩
    · rintro ⟨rfl, hsum⟩
      cases before with
      | nil => rfl
      | cons c before =>
        rw [List.map_cons, List.sum_cons] at hsum
        have hpos := c.utf8Size_pos
        omega
  | case2 n =>
    rw [splitAt]
    refine iff_of_false (by simp) ?_
    rintro ⟨hnil, hsum⟩
    obtain ⟨rfl, -⟩ := List.append_eq_nil_iff.1 hnil.symm
    cases hsum
  | case3 c cs n hsize ih =>
    rw [splitAt, if_pos hsize, Option.map_eq_some_iff]
    constructor
    · rintro ⟨⟨rest, behind⟩, hsplit, heq⟩
      cases heq
      obtain ⟨rfl, hsum⟩ := ih.1 hsplit
      refine ⟨rfl, ?_⟩
      rw [List.map_cons, List.sum_cons]
      omega
    · rintro ⟨heq, hsum⟩
      cases before with
      | nil => cases hsum
      | cons d rest =>
        obtain ⟨rfl, hcs⟩ := List.cons.inj heq
        rw [List.map_cons, List.sum_cons] at hsum
        exact ⟨(rest, behind), ih.2 ⟨hcs, by omega⟩, rfl⟩
  | case4 c cs n hsize =>
    rw [splitAt, if_neg hsize]
    refine iff_of_false (by simp) ?_
    rintro ⟨heq, hsum⟩
    -- the first character ends behind the byte
    cases before with
    | nil => cases hsum
    | cons d rest =>
      obtain ⟨rfl, -⟩ := List.cons.inj heq
      rw [List.map_cons, List.sum_cons] at hsum
      omega

theorem splitAt_isSome_iff : (splitAt cs n).isSome ↔ CharBoundary n cs := by
  rw [Option.isSome_iff_exists]
  constructor
  · rintro ⟨⟨before, behind⟩, h⟩
    exact ⟨before, behind, splitAt_eq_some_iff.1 h⟩
  · rintro ⟨before, behind, h⟩
    exact ⟨(before, behind), splitAt_eq_some_iff.2 h⟩

/-- `str::split_once` gives what is before and behind the first separator. -/
theorem splitOnce_eq_some_iff :
    splitOnce sep cs = some (before, behind) ↔ cs = before ++ sep :: behind ∧ sep ∉ before := by
  induction cs generalizing before with
  | nil => exact iff_of_false (by simp [splitOnce]) (by simp)
  | cons c cs ih =>
    rw [splitOnce]
    split_ifs with hsep
    · subst hsep
      constructor
      · intro h
        cases h
        exact ⟨rfl, List.not_mem_nil⟩
      · rintro ⟨heq, hnot⟩
        cases before with
        | nil =>
          obtain ⟨-, rfl⟩ := List.cons.inj heq
          rfl
        | cons d before =>
          obtain ⟨rfl, -⟩ := List.cons.inj heq
          exact absurd List.mem_cons_self hnot
    · rw [Option.map_eq_some_iff]
      constructor
      · rintro ⟨⟨rest, behind⟩, hsplit, heq⟩
        cases heq
        obtain ⟨rfl, hnot⟩ := ih.1 hsplit
        exact ⟨rfl, mt List.mem_cons.1 (not_or.2 ⟨Ne.symm hsep, hnot⟩)⟩
      · rintro ⟨heq, hnot⟩
        cases before with
        | nil => exact absurd (List.cons.inj heq).1 hsep
        | cons d rest =>
          obtain ⟨rfl, hcs⟩ := List.cons.inj heq
          have hrest := fun hmem => hnot (List.mem_cons_of_mem c hmem)
          exact ⟨(rest, behind), ih.2 ⟨hcs, hrest⟩, rfl⟩

theorem splitOnce_eq_none_iff : splitOnce sep cs = none ↔ sep ∉ cs := by
  constructor
  · intro hnone hmem
    -- the text can be split at its first separator
    obtain ⟨before, behind, rfl, hnot⟩ := List.eq_append_cons_of_mem hmem
    rw [splitOnce_eq_some_iff.2 ⟨rfl, hnot⟩] at hnone
    cases hnone
  · intro hnot
    by_contra hsome
    obtain ⟨⟨before, behind⟩, h⟩ := Option.ne_none_iff_exists'.1 hsome
    exact hnot ((splitOnce_eq_some_iff.1 h).1 ▸ by simp)

/-! ### Parsing -/

namespace BacktestRequest

variable {sym : String} {symbol : Symbol}

/-- The text is parsed; with a slash, base and quote with a slash between them are the text, and
without one, if it is longer, base and quote run together are. -/
def ParsedBack (sym : String) : Prop :=
  ∃ symbol, parseSymbol sym = some symbol ∧
    ('/' ∈ sym.toList → symbol.base ++ "/" ++ symbol.quote = sym) ∧
    ('/' ∉ sym.toList → 3 < sym.utf8ByteSize → symbol.base ++ symbol.quote = sym)

theorem parsedBack_of_slash (hslash : '/' ∈ sym.toList) : ParsedBack sym := by
  obtain ⟨before, behind, heq, hnot⟩ := List.eq_append_cons_of_mem hslash
  have hparse : parseSymbol sym =
      some { base := String.ofList before, quote := String.ofList behind } := by
    rw [parseSymbol, splitOnce_eq_some_iff.2 ⟨heq, hnot⟩]
  refine ⟨_, hparse, fun _ => ?_, fun hnone => absurd hslash hnone⟩
  rw [← String.toList_inj, String.toList_append, String.toList_append, heq]
  simp

/-- A text without a slash is parsed exactly if it is short, or a character ends at the third
byte. -/
theorem parsedBack_iff_boundary (hslash : '/' ∉ sym.toList) :
    ParsedBack sym ↔ (3 < sym.utf8ByteSize → CharBoundary 3 sym.toList) := by
  unfold ParsedBack parseSymbol
  rw [splitOnce_eq_none_iff.2 hslash]
  dsimp only
  by_cases hlong : 3 < sym.utf8ByteSize
  · rw [if_pos hlong, ← splitAt_isSome_iff, Option.isSome_iff_exists]
    constructor
    · rintro ⟨symbol, hparse, -⟩ -
      obtain ⟨split, hsplit, -⟩ := Option.map_eq_some_iff.1 hparse
      exact ⟨split, hsplit⟩
    · intro h
      obtain ⟨⟨before, behind⟩, hsplit⟩ := h hlong
      refine ⟨_, Option.map_eq_some_iff.2 ⟨_, hsplit, rfl⟩, fun hmem => absurd hmem hslash,
        fun _ _ => ?_⟩
      rw [← String.toList_inj, String.toList_append, (splitAt_eq_some_iff.1 hsplit).1]
      simp
  · rw [if_neg hlong]
    exact iff_of_true ⟨_, rfl, fun hmem => absurd hmem hslash, fun _ h => absurd h hlong⟩
      fun h => absurd h hlong

/-- **Exactly when a text is parsed**: there is a slash in it, or it is not longer than three bytes,
or a character ends at the third byte. -/
theorem parsedBack_iff :
    ParsedBack sym ↔
      ('/' ∉ sym.toList → 3 < sym.utf8ByteSize → CharBoundary 3 sym.toList) := by
  by_cases hslash : '/' ∈ sym.toList
  · exact iff_of_true (parsedBack_of_slash hslash) fun h => absurd hslash h
  · rw [parsedBack_iff_boundary hslash]
    exact ⟨fun h _ => h, fun h => h hslash⟩

theorem mapM_isSome_iff (syms : List String) :
    (syms.mapM parseSymbol).isSome ↔ ∀ sym ∈ syms, (parseSymbol sym).isSome := by
  induction syms with
  | nil => simp
  | cons sym syms ih =>
    rw [List.mapM_cons, List.forall_mem_cons, ← ih]
    cases parseSymbol sym with
    | none => simp
    | some symbol => cases syms.mapM parseSymbol <;> simp

end BacktestRequest

/-- The request does not panic, and nothing of its symbols is lost. -/
def RequestParses (request : BacktestRequest) : Prop :=
  request.config.isSome ∧ ∀ sym ∈ request.symbols, BacktestRequest.ParsedBack sym

/-- **Exactly when a request is parsed**: in every symbol that has no slash and is longer than three
bytes, a character ends at the third byte. -/
theorem requestParses_iff (request : BacktestRequest) :
    RequestParses request ↔
      ∀ sym ∈ request.symbols, '/' ∉ sym.toList → 3 < sym.utf8ByteSize →
        CharBoundary 3 sym.toList := by
  have hconfig : request.config.isSome ↔
      (request.symbols.mapM BacktestRequest.parseSymbol).isSome := by
    unfold BacktestRequest.config
    cases request.symbols.mapM BacktestRequest.parseSymbol <;> simp
  unfold RequestParses
  rw [hconfig, BacktestRequest.mapM_isSome_iff, ← forall₂_and]
  refine forall₂_congr fun sym _ => ?_
  rw [← BacktestRequest.parsedBack_iff, and_iff_right_iff_imp]
  rintro ⟨symbol, hparse, -⟩
  exact Option.isSome_iff_exists.2 ⟨symbol, hparse⟩

/-- **A request that panics**: the third byte of its symbol is inside a character. -/
theorem not_requestParses :
    ¬ RequestParses
        { exchange := "okx", symbols := ["BTC/USDT", "éé"], start := 0, stop := 0 } ∧
      BacktestRequest.config
        { exchange := "okx", symbols := ["BTC/USDT", "éé"], start := 0, stop := 0 } = none := by
  have hnone : BacktestRequest.config
      { exchange := "okx", symbols := ["BTC/USDT", "éé"], start := 0, stop := 0 } = none := by
    decide +kernel
  refine ⟨fun h => ?_, hnone⟩
  have hsome := h.1
  rw [hnone] at hsome
  cases hsome

end W2uos
