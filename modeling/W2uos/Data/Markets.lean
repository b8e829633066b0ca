import W2uos.Data.Types
import W2uos.System.Text

/-!
# Texts of markets

The services write a market as one text: the ledgers as base and quote run together in upper case,
the bus as the printed exchange with the same behind a dot.  Such a text does not tell where the
base ends, nor, if there are dots in the name of an exchange, where the exchange ends.

* `Symbol.sameUpToCase_iff` : symbols with one code are the same if their bases are of one length;
* `marketSubject_eq_iff` : when two markets have one subject.
-/

namespace W2uos

variable [CaseTable]

namespace Symbol

/-- Base and quote run together, in upper case. -/
def code (symbol : Symbol) : List Char :=
  (toUppercase symbol.base).toList ++ (toUppercase symbol.quote).toList

/-- Base and quote are the same up to letter case. -/
def SameUpToCase (a b : Symbol) : Prop :=
  toUppercase a.base = toUppercase b.base ∧ toUppercase a.quote = toUppercase b.quote

instance (a b : Symbol) : Decidable (SameUpToCase a b) := inferInstanceAs (Decidable (_ ∧ _))

theorem sameUpToCase_iff (a b : Symbol) :
    SameUpToCase a b ↔
      a.code = b.code ∧ (toUppercase a.base).length = (toUppercase b.base).length := by
  constructor
  · rintro ⟨hbase, hquote⟩
    exact ⟨by rw [code, code, hbase, hquote], by rw [hbase]⟩
  · rintro ⟨hcode, hlength⟩
    obtain ⟨hbase, hquote⟩ := List.append_inj hcode
      (by rw [String.length_toList, String.length_toList, hlength])
    exact ⟨String.toList_inj.1 hbase, String.toList_inj.1 hquote⟩

end Symbol

theorem symbolKey_eq_iff (a b : Symbol) : symbolKey a = symbolKey b ↔ a.code = b.code := by
  have hkey : ∀ symbol : Symbol, (symbolKey symbol).toList = symbol.code := by
    intro symbol
    simp [symbolKey, Symbol.code, toUppercase]
  rw [← String.toList_inj, hkey, hkey]

omit [CaseTable] in
/-- The name of the second exchange goes on where that of the first ends, behind a dot, with what
the first code begins with. -/
def Overlap (exchange exchange' : ExchangeId) (code code' : List Char) : Prop :=
  ∃ rest, exchange'.toText.toList = exchange.toText.toList ++ '.' :: rest ∧
    code = rest ++ '.' :: code'

omit [CaseTable] in
theorem Overlap.ne {exchange exchange' : ExchangeId} {code code' : List Char}
    (h : Overlap exchange exchange' code code') : exchange ≠ exchange' := by
  rintro rfl
  obtain ⟨rest, hname, -⟩ := h
  have hlength := congrArg List.length hname
  rw [List.length_append, List.length_cons] at hlength
  omega

/-- **When two markets have one subject**: the exchanges are printed alike and the codes are the
same, or the names overlap. -/
theorem marketSubject_eq_iff {exchange exchange' : ExchangeId} {symbol symbol' : Symbol} :
    marketSubject exchange symbol = marketSubject exchange' symbol' ↔
      (exchange.toText = exchange'.toText ∧ symbol.code = symbol'.code) ∨
        Overlap exchange exchange' symbol.code symbol'.code ∨
        Overlap exchange' exchange symbol'.code symbol.code := by
  have hsubject : ∀ (exchange : ExchangeId) (symbol : Symbol),
      (marketSubject exchange symbol).toList =
        "market.".toList ++ (exchange.toText.toList ++ '.' :: symbol.code) := by
    intro exchange symbol
    simp [marketSubject, Symbol.code, String.toList_append]
  rw [← String.toList_inj, hsubject, hsubject, List.append_right_inj, append_cons_eq_iff,
    String.toList_inj]
  rfl

end W2uos
