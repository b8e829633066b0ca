import W2uos.Amounts.Basic
import Mathlib.Algebra.BigOperators.Ring.Finset
import Mathlib.Tactic.Ring

/-!
# Accounts and postings

An *account* is a balance together with a holding for every key.  A *posting* moves the balance
and the holding of one key.  What a list of postings does to an account is a sum, whatever the
order: this is the abstract meaning of a ledger that is kept by a program, and of the audit trail
such a program writes.

* `Account.balance_postAll`, `Account.holding_postAll` : the balance and the holdings after a list
  of postings, as sums over the list;
* `Account.worth_postAll` : postings that are neutral at a price conserve the worth at that price.
-/

/-- One movement of an account. -/
structure Posting (κ α : Type*) where
  /-- The key whose holding moves. -/
  key : κ
  /-- The change of the balance. -/
  cash : α
  /-- The change of the holding. -/
  units : α

/-- A balance and the holdings of all keys. -/
@[ext] structure Account (κ α : Type*) where
  /-- The balance. -/
  balance : α
  /-- The holding of each key. -/
  holding : κ → α

namespace Account

variable {κ α : Type*} [DecidableEq κ] [AddCommMonoid α]

/-- Carry out one posting. -/
def post (a : Account κ α) (p : Posting κ α) : Account κ α where
  balance := a.balance + p.cash
  holding := Function.update a.holding p.key (a.holding p.key + p.units)

/-- Carry out a list of postings. -/
def postAll (a : Account κ α) (ps : List (Posting κ α)) : Account κ α := ps.foldl post a

@[simp] theorem postAll_nil (a : Account κ α) : a.postAll [] = a := rfl

@[simp] theorem postAll_cons (a : Account κ α) (p : Posting κ α) (ps : List (Posting κ α)) :
    a.postAll (p :: ps) = (a.post p).postAll ps := rfl

theorem postAll_append (a : Account κ α) (ps qs : List (Posting κ α)) :
    a.postAll (ps ++ qs) = (a.postAll ps).postAll qs :=
  List.foldl_append

/-- The holding of `k` moves by `u` when a posting of `u` units is under `k`. -/
theorem holding_post (a : Account κ α) (p : Posting κ α) (k : κ) :
    (a.post p).holding k = a.holding k + if p.key = k then p.units else 0 := by
  unfold post
  by_cases hk : p.key = k
  · subst hk
    simp
  · simp [hk, Function.update_of_ne (Ne.symm hk)]

/-- **The balance after a list of postings.** -/
theorem balance_postAll (a : Account κ α) (ps : List (Posting κ α)) :
    (a.postAll ps).balance = a.balance + (ps.map (·.cash)).sum := by
  induction ps generalizing a with
  | nil => simp
  | cons p ps ih => rw [postAll_cons, ih, List.map_cons, List.sum_cons, post, add_assoc]

/-- **The holdings after a list of postings.** -/
theorem holding_postAll (a : Account κ α) (ps : List (Posting κ α)) (k : κ) :
    (a.postAll ps).holding k =
      a.holding k + (ps.map fun p => if p.key = k then p.units else 0).sum := by
  induction ps generalizing a with
  | nil => simp
  | cons p ps ih => rw [postAll_cons, ih, holding_post, List.map_cons, List.sum_cons, add_assoc]

end Account

/-! ### Worth at a price -/

section Worth

variable {κ α : Type*} [DecidableEq κ] [CommRing α]

omit [DecidableEq κ] in
/-- The cash that is moved pays for the units at the given price. -/
def Posting.NeutralAt (price : α) (p : Posting κ α) : Prop := p.cash + price * p.units = 0

omit [DecidableEq κ] in
/-- The balance and the holdings of the keys `K`, valued at a price. -/
def Account.worth (a : Account κ α) (price : α) (K : Finset κ) : α :=
  a.balance + price * ∑ k ∈ K, a.holding k

theorem Account.worth_post (a : Account κ α) {price : α} {p : Posting κ α}
    (hp : p.NeutralAt price) {K : Finset κ} (hK : p.key ∈ K) :
    (a.post p).worth price K = a.worth price K := by
  have hsum : ∑ k ∈ K, (a.post p).holding k = ∑ k ∈ K, a.holding k + p.units := by
    simp [holding_post, Finset.sum_add_distrib, hK]
  calc (a.post p).worth price K
      = a.balance + p.cash + price * (∑ k ∈ K, a.holding k + p.units) := by
        rw [worth, hsum, post]
    _ = a.worth price K + (p.cash + price * p.units) := by
        rw [worth]
        ring
    _ = a.worth price K := by rw [hp, add_zero]

/-- **Neutral postings conserve the worth** of every set of keys that has theirs. -/
theorem Account.worth_postAll (a : Account κ α) {price : α} {K : Finset κ}
    {ps : List (Posting κ α)} (h : ∀ p ∈ ps, p.NeutralAt price ∧ p.key ∈ K) :
    (a.postAll ps).worth price K = a.worth price K := by
  induction ps generalizing a with
  | nil => rfl
  | cons p ps ih =>
    obtain ⟨hp, hK⟩ := h p List.mem_cons_self
    rw [postAll_cons, ih _ fun q hq => h q (List.mem_cons_of_mem _ hq), a.worth_post hp hK]

end Worth

namespace Amounts

variable {κ α : Type*} [DecidableEq κ] [AddCommMonoid α]

/-- The account kept as a balance and a map of amounts. -/
def account (balance : α) (m : Amounts κ α) : Account κ α := ⟨balance, m.amount⟩

theorem amount_insert (m : Amounts κ α) (k : κ) (a : α) :
    amount (m.insert k a) = Function.update (amount m) k a := by
  funext k'
  by_cases hk : k' = k
  · rw [hk, amount_insert_self, Function.update_self]
  · rw [amount_insert_ne m a hk, Function.update_of_ne hk]

/-- Writing back the amount of a key, which creates its entry if it has none, is not seen in the
account. -/
theorem account_insert_amount (b : α) (m : Amounts κ α) (k : κ) :
    account b (m.insert k (amount m k)) = account b m := by
  simp only [account, amount_insert, Function.update_eq_self]

theorem account_insert_add (b c : α) (m : Amounts κ α) (k : κ) (u : α) :
    account (b + c) (m.insert k (amount m k + u)) = (account b m).post ⟨k, c, u⟩ := by
  simp only [account, Account.post, amount_insert]

end Amounts
