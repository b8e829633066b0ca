import Mathlib.Data.List.TakeWhile
import W2uos.Exec.Rejected

/-!
# Positions as the API shows them

The ledger keeps a position under base and quote run together in upper case.  `get_positions` splits
such a key again: the base is what comes before the first character that is no letter, the quote the
rest.  The names of most assets are letters only, so the base is the whole key and the quote is
empty.

Which characters are letters is decided by a Unicode table, which is a parameter.

* `splitKey_iff` : exactly when a key is split where it was put together;
* `positionsNamed_iff` : exactly when the positions of a run are named right.
-/

namespace W2uos

/-- The letters of the Unicode data Rust is built with. -/
class LetterTable where
  /-- `char::is_alphabetic`. -/
  isAlphabetic : Char → Bool

/-- The letters among ASCII characters. -/
@[reducible] def asciiLetters : LetterTable := ⟨Char.isAlpha⟩

/-- A position as the API shows it. -/
structure PositionDto where
  symbol : String
  base : String
  quote : String
  positionBase : ℚ
  balanceUsdt : ℚ
  deriving DecidableEq

section Positions

variable [LetterTable]

/-- The position of a key. -/
def positionDto (balance : ℚ) (symbol : String) (size : ℚ) : PositionDto where
  symbol := symbol
  base := String.ofList (symbol.toList.takeWhile LetterTable.isAlphabetic)
  quote := String.ofList (symbol.toList.dropWhile LetterTable.isAlphabetic)
  positionBase := size
  balanceUsdt := balance

/-- `get_positions`; the entries of the ledger come in no particular order. -/
def getPositions (execService : Option ExecutionService) : Multiset PositionDto :=
  match execService with
  | some exec => exec.positions.2.entries.map fun e => positionDto exec.positions.1 e.1 e.2
  | none => 0

theorem mem_getPositions {s : ExecutionService} {dto : PositionDto} :
    dto ∈ getPositions (some s) ↔
      ∃ key size, s.positions.2.lookup key = some size ∧
        dto = positionDto s.positions.1 key size := by
  unfold getPositions
  rw [Multiset.mem_map]
  constructor
  · rintro ⟨⟨key, size⟩, hmem, rfl⟩
    exact ⟨key, size, Finmap.mem_lookup_iff.2 hmem, rfl⟩
  · rintro ⟨key, size, hlookup, rfl⟩
    exact ⟨⟨key, size⟩, Finmap.mem_lookup_iff.1 hlookup, rfl⟩

theorem positionDto_append (balance : ℚ) (symbol : String) (size : ℚ) :
    (positionDto balance symbol size).base ++ (positionDto balance symbol size).quote =
      symbol := by
  rw [← String.toList_inj, String.toList_append]
  simp [positionDto]

variable [CaseTable]

/-- The base, in upper case, has letters only, and the quote does not begin with one. -/
def Symbol.Splits (symbol : Symbol) : Prop :=
  (∀ c ∈ (toUppercase symbol.base).toList, LetterTable.isAlphabetic c = true) ∧
    ∀ c ∈ (toUppercase symbol.quote).toList.head?, LetterTable.isAlphabetic c = false

omit [LetterTable] [CaseTable] in
/-- A text is split where it was put together exactly if the first part has the property and the
second does not begin with it. -/
theorem takeWhile_append_eq_iff {p : Char → Bool} {before behind : List Char} :
    (before ++ behind).takeWhile p = before ↔
      (∀ c ∈ before, p c = true) ∧ ∀ c ∈ behind.head?, p c = false := by
  constructor
  · intro h
    have hbefore : ∀ c ∈ before, p c = true := by
      intro c hc
      rw [← h] at hc
      exact List.mem_takeWhile_imp hc
    refine ⟨hbefore, ?_⟩
    rw [List.takeWhile_append_of_pos hbefore] at h
    cases behind with
    | nil => simp
    | cons d behind =>
      intro c hc
      obtain rfl : d = c := Option.some.inj hc
      by_contra hd
      rw [List.takeWhile_cons_of_pos (by simpa using hd)] at h
      simp at h
  · rintro ⟨hbefore, hbehind⟩
    rw [List.takeWhile_append_of_pos hbefore]
    cases behind with
    | nil => simp
    | cons d behind =>
      rw [List.takeWhile_cons_of_neg (by simp [hbehind d rfl]), List.append_nil]

/-- **Exactly when a key is split where it was put together.** -/
theorem splitKey_iff (balance size : ℚ) (symbol : Symbol) :
    let dto := positionDto balance (symbolKey symbol) size
    (dto.base = toUppercase symbol.base ∧ dto.quote = toUppercase symbol.quote) ↔
      symbol.Splits := by
  have hkey : (symbolKey symbol).toList =
      (toUppercase symbol.base).toList ++ (toUppercase symbol.quote).toList := by
    simp [symbolKey, toUppercase]
  have hrest := List.takeWhile_append_dropWhile (p := LetterTable.isAlphabetic)
    (l := (toUppercase symbol.base).toList ++ (toUppercase symbol.quote).toList)
  unfold Symbol.Splits positionDto
  dsimp only
  rw [hkey, ← takeWhile_append_eq_iff, ← String.toList_inj, ← String.toList_inj,
    String.toList_ofList, String.toList_ofList]
  constructor
  · exact fun h => h.1
  · intro h
    refine ⟨h, ?_⟩
    rw [h] at hrest
    exact List.append_cancel_left hrest

end Positions

/-! ### Orders and positions -/

section Orders

variable [CaseTable]

/-- The order makes the position under its key, or is filled on it. -/
def Creates (s : ExecutionService) (cmd : OrderCommand) (now : DateTime)
    (exchange : OkxOrderRequest → Transmission) : Prop :=
  symbolKey cmd.symbol ∈ (s.handleCommand cmd now exchange).service.positions.2 ∧
    (symbolKey cmd.symbol ∉ s.positions.2 ∨
      ∃ r, (s.handleCommand cmd now exchange).result = .ok r ∧ r.status = .filled)

/-- The ledger after an order: as before, or with an entry under the key of the order. -/
theorem fill_positions (state : ExecutionState) (cmd : OrderCommand) (price : ℚ) :
    (state.fill cmd price).1.positions = state.positions ∨
      ∃ amount, (state.fill cmd price).1.positions =
        state.positions.insert (symbolKey cmd.symbol) amount := by
  unfold ExecutionState.fill
  cases cmd.side with
  | buy =>
    dsimp only
    split_ifs
    · exact Or.inr ⟨_, rfl⟩
    · exact Or.inl rfl
  | sell =>
    dsimp only
    split_ifs
    · exact Or.inr ⟨_, rfl⟩
    · exact Or.inr ⟨_, rfl⟩

variable [Reqwest]

/-- **The step lemma of the keys**: no key is lost, and a new one is that of an order which creates
the position. -/
theorem keys_step (s : ExecutionService) (i : ExecInput) (key : String) :
    (key ∈ s.positions.2 → key ∈ (executionService.next s i).positions.2) ∧
    (key ∈ (executionService.next s i).positions.2 → key ∈ s.positions.2 ∨
      ∃ cmd now exchange, i = .command (.ok cmd) now exchange ∧ symbolKey cmd.symbol = key ∧
        Creates s cmd now exchange) := by
  unfold ExecutionService.positions
  dsimp only
  rcases state_step s i with hsame | ⟨cmd, now, exchange, rfl, hfill⟩
  · rw [hsame]
    exact ⟨id, Or.inl⟩
  · have hnext : (executionService.next s (.command (.ok cmd) now exchange)).positions.2 =
        (s.handleCommand cmd now exchange).service.positions.2 := rfl
    rcases fill_positions s.state cmd (s.priceOf cmd) with heq | ⟨amount, heq⟩
    · rw [hfill, heq]
      exact ⟨id, Or.inl⟩
    · have hpositions : (executionService.next s (.command (.ok cmd) now exchange)).state.positions
          = s.state.positions.insert (symbolKey cmd.symbol) amount := by
        rw [hfill, heq]
      rw [hpositions, Finmap.mem_insert]
      refine ⟨Or.inr, ?_⟩
      rintro (rfl | hkey)
      · by_cases hold : symbolKey cmd.symbol ∈ s.state.positions
        · exact Or.inl hold
        · refine Or.inr ⟨cmd, now, exchange, rfl, rfl, ?_, Or.inl hold⟩
          rw [← hnext, ExecutionService.positions, hpositions, Finmap.mem_insert]
          exact Or.inl rfl
      · exact Or.inl hkey

theorem mem_positions_run {s : ExecutionService} {key : String} (h : key ∈ s.positions.2)
    (is : List ExecInput) : key ∈ (executionService.run s is).positions.2 :=
  Machine.run_invariant (M := executionService) (P := fun t => key ∈ t.positions.2)
    (Q := fun _ => True) h (fun t i ht _ => (keys_step t i key).1 ht)
    fun (i : ExecInput) (_ : i ∈ is) => trivial

/-- Every position of a run that was not there at its start was created by an order of it. -/
theorem exists_creates {s : ExecutionService} {is : List ExecInput} {key : String}
    (hkey : key ∈ (executionService.run s is).positions.2) (hstart : key ∉ s.positions.2) :
    ∃ pre cmd now exchange post, is = pre ++ .command (.ok cmd) now exchange :: post ∧
      symbolKey cmd.symbol = key ∧ Creates (executionService.run s pre) cmd now exchange := by
  induction is using List.reverseRecOn with
  | nil => exact absurd hkey hstart
  | append_singleton is i ih =>
    rw [Machine.run_concat] at hkey
    rcases (keys_step (executionService.run s is) i key).2 hkey with hbefore |
      ⟨cmd, now, exchange, rfl, hcmd, hcreates⟩
    · obtain ⟨pre, cmd, now, exchange, post, rfl, hcmd, hcreates⟩ := ih hbefore
      exact ⟨pre, cmd, now, exchange, post ++ [i], by simp, hcmd, hcreates⟩
    · exact ⟨is, cmd, now, exchange, [], rfl, hcmd, hcreates⟩

end Orders

section Named

variable [CaseTable] [Reqwest] [LetterTable]

/-- Every position after a run is shown with the base and the quote, in upper case, of the orders
that created it, and these run together are its symbol. -/
def PositionsNamed (s : ExecutionService) (is : List ExecInput) : Prop :=
  ∀ dto ∈ getPositions (some (executionService.run s is)),
    dto.base ++ dto.quote = dto.symbol ∧
    ∀ pre cmd now exchange post, is = pre ++ .command (.ok cmd) now exchange :: post →
      Creates (executionService.run s pre) cmd now exchange →
      symbolKey cmd.symbol = dto.symbol →
      dto.base = toUppercase cmd.symbol.base ∧ dto.quote = toUppercase cmd.symbol.quote

/-- **Exactly when the positions of a run are named right**: every order that creates a position has
a base of letters only and a quote that does not begin with a letter. -/
theorem positionsNamed_iff (s : ExecutionService) (is : List ExecInput) :
    PositionsNamed s is ↔
      ∀ pre cmd now exchange post, is = pre ++ .command (.ok cmd) now exchange :: post →
        Creates (executionService.run s pre) cmd now exchange → cmd.symbol.Splits := by
  constructor
  · intro h pre cmd now exchange post his hcreates
    -- the position of the order is still there after the run
    have hkey : symbolKey cmd.symbol ∈ (executionService.run s is).positions.2 := by
      rw [his, Machine.run_append, Machine.run_cons]
      exact mem_positions_run hcreates.1 post
    obtain ⟨size, hsize⟩ := Finmap.mem_iff.1 hkey
    have hnamed := (h _ (mem_getPositions.2 ⟨_, size, hsize, rfl⟩)).2 pre cmd now exchange post his
      hcreates rfl
    exact (splitKey_iff _ _ _).1 hnamed
  · rintro h dto hdto
    obtain ⟨key, size, -, rfl⟩ := mem_getPositions.1 hdto
    refine ⟨positionDto_append _ _ _, ?_⟩
    intro pre cmd now exchange post his hcreates hkey
    obtain rfl : symbolKey cmd.symbol = key := hkey
    exact (splitKey_iff _ _ _).2 (h pre cmd now exchange post his hcreates)

end Named

/-- A buy of 100 at the limit price 10. -/
def btcBuy : OrderCommand := sampleOrder "a" .buy 100 (some 10)

/-- **A position with a wrong name**: after a buy of BTC for USDT the API shows a position in
BTCUSDT, for nothing. -/
theorem not_positionsNamed :
    ∃ s, @ExecutionService.new ℚ acceptAll _ .default = .ok s ∧
      ¬ @PositionsNamed asciiCase acceptAll asciiLetters s
        [.command (.ok btcBuy) 0 fun _ => .unsent "unreachable"] ∧
      @getPositions asciiLetters (some (sampleService.run s
        [.command (.ok btcBuy) 0 fun _ => .unsent "unreachable"])) =
          {{ symbol := "BTCUSDT", base := "BTCUSDT", quote := "", positionBase := 10,
             balanceUsdt := 99900 }} := by
  refine ⟨_, rfl, fun h => ?_, by decide +kernel⟩
  have hnamed := (h (@positionDto asciiLetters 99900 "BTCUSDT" 10) (by decide +kernel)).2 [] btcBuy
    0 (fun _ => .unsent "unreachable") [] rfl ⟨by decide +kernel, Or.inl Finmap.notMem_empty⟩
    (by decide +kernel)
  revert hnamed
  decide +kernel

end W2uos
