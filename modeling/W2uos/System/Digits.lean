import Mathlib.Data.String.Basic

/-!
# Fixed-width decimals in lexicographic order

Numbers below a power of ten, written with as many digits as the power has zeros, are in the same
order as their texts.  Zeros at the end may be cut off, if what follows the digits comes before all
digits.

* `digits_lt_digits` : the texts of two numbers are in the order of the numbers;
* `digits_add` : a text can be split into that of the quotient and that of the remainder;
* `lt_of_cut_zeros` : cutting zeros off does not change the order.
-/

/-- The decimal digit of a number below ten. -/
def digit (n : ℕ) : Char := Char.ofNat (48 + n % 10)

/-- The last `w` decimal digits of a number, leading zeros included. -/
def digits : ℕ → ℕ → List Char
  | 0, _ => []
  | w + 1, n => digit (n / 10 ^ w) :: digits w (n % 10 ^ w)

@[simp] theorem digits_zero (n : ℕ) : digits 0 n = [] := rfl

theorem digits_succ (w n : ℕ) :
    digits (w + 1) n = digit (n / 10 ^ w) :: digits w (n % 10 ^ w) := rfl

@[simp] theorem length_digits (w n : ℕ) : (digits w n).length = w := by
  induction w generalizing n with
  | zero => rfl
  | succ w ih => rw [digits_succ, List.length_cons, ih]

theorem digit_lt_digit {m n : ℕ} (h : m < n) (hn : n < 10) : digit m < digit n := by
  have htable : ∀ b < 10, ∀ a < b, digit a < digit b := by decide
  exact htable n hn m h

theorem zero_le_digit (n : ℕ) : '0' ≤ digit n := by
  have htable : ∀ a < 10, '0' ≤ Char.ofNat (48 + a) := by decide
  exact htable (n % 10) (Nat.mod_lt n (by decide))

theorem mem_digits {w n : ℕ} {c : Char} (h : c ∈ digits w n) : ∃ a, c = digit a := by
  induction w generalizing n with
  | zero => cases h
  | succ w ih =>
    rcases List.mem_cons.1 h with rfl | h
    · exact ⟨_, rfl⟩
    · exact ih h

theorem zero_le_of_mem_digits {w n : ℕ} {c : Char} (h : c ∈ digits w n) : '0' ≤ c := by
  obtain ⟨a, rfl⟩ := mem_digits h
  exact zero_le_digit a

theorem le_nine_of_mem_digits {w n : ℕ} {c : Char} (h : c ∈ digits w n) :
    c.toNat ≤ '9'.toNat := by
  obtain ⟨a, rfl⟩ := mem_digits h
  have htable : ∀ b < 10, (Char.ofNat (48 + b)).toNat ≤ '9'.toNat := by decide
  exact htable (a % 10) (Nat.mod_lt a (by decide))

/-- **The texts of two numbers are in the order of the numbers.** -/
theorem digits_lt_digits {w m n : ℕ} (h : m < n) (hn : n < 10 ^ w) : digits w m < digits w n := by
  induction w generalizing m n with
  | zero => omega
  | succ w ih =>
    rw [digits_succ, digits_succ, List.cons_lt_cons_iff]
    have hquot : n / 10 ^ w < 10 := by
      rw [Nat.div_lt_iff_lt_mul (Nat.pow_pos (by decide)), ← Nat.pow_succ']
      exact hn
    rcases Nat.lt_or_eq_of_le (Nat.div_le_div_right (c := 10 ^ w) (Nat.le_of_lt h)) with hlt | heq
    · exact Or.inl (digit_lt_digit hlt hquot)
    · -- with equal first digits the rest decides
      refine Or.inr ⟨by rw [heq], ih ?_ (Nat.mod_lt _ (Nat.pow_pos (by decide)))⟩
      have hm := Nat.div_add_mod m (10 ^ w)
      have hn := Nat.div_add_mod n (10 ^ w)
      rw [heq] at hm
      omega

/-- **The digits of a number** are those of its quotient by a power of ten and those of the
remainder. -/
theorem digits_add (v w n : ℕ) :
    digits (v + w) n = digits v (n / 10 ^ w) ++ digits w (n % 10 ^ w) := by
  induction v generalizing n with
  | zero =>
    rw [Nat.zero_add, digits_zero, List.nil_append]
    cases w with
    | zero => rfl
    | succ w =>
      have hdigit : digit (n / 10 ^ w) = digit (n % 10 ^ (w + 1) / 10 ^ w) := by
        rw [digit, digit, Nat.pow_succ, Nat.mod_mul_right_div_self, Nat.mod_mod]
      rw [digits_succ, digits_succ, hdigit, Nat.mod_mod_of_dvd _ (Nat.pow_dvd_pow 10 (by omega))]
  | succ v ih =>
    have hquot : n / 10 ^ (v + w) = n / 10 ^ w / 10 ^ v := by
      rw [Nat.div_div_eq_div_mul, Nat.pow_add, Nat.mul_comm]
    have hrest : n % 10 ^ (v + w) / 10 ^ w = n / 10 ^ w % 10 ^ v := by
      rw [Nat.add_comm v w, Nat.pow_add, Nat.mod_mul_right_div_self]
    have hmod : n % 10 ^ (v + w) % 10 ^ w = n % 10 ^ w :=
      Nat.mod_mod_of_dvd _ (Nat.pow_dvd_pow 10 (by omega))
    rw [Nat.succ_add, digits_succ, digits_succ, ih, hquot, hrest, hmod, List.cons_append]

theorem digits_zeros (w : ℕ) : digits w 0 = List.replicate w '0' := by
  induction w with
  | zero => rfl
  | succ w ih =>
    rw [digits_succ, Nat.zero_div, Nat.zero_mod, ih]
    rfl

/-! ### Lexicographic order -/

section Lex

variable {α : Type*} [LT α] {a b x y : List α}

/-- Two texts that begin with blocks of one length are in the order of these, if they differ. -/
theorem append_lt_append_of_lt (hlen : a.length = b.length) (h : a < b) : a ++ x < b ++ y := by
  induction a generalizing b with
  | nil =>
    rw [List.length_nil, eq_comm, List.length_eq_zero_iff] at hlen
    rw [hlen] at h
    exact absurd h (List.not_lt_nil _)
  | cons c a ih =>
    cases b with
    | nil => exact absurd h (List.not_lt_nil _)
    | cons d b =>
      rw [List.cons_append, List.cons_append, List.cons_lt_cons_iff]
      rcases List.cons_lt_cons_iff.1 h with hcd | ⟨hcd, hab⟩
      · exact Or.inl hcd
      · exact Or.inr ⟨hcd, ih (Nat.succ.inj hlen) hab⟩

end Lex

/-- Two texts that begin with numbers of one width are in the order of these, or else in the order
of what follows. -/
theorem digits_append_lt {w m n : ℕ} {x y : List Char} (hn : n < 10 ^ w)
    (h : m < n ∨ m = n ∧ x < y) : digits w m ++ x < digits w n ++ y := by
  rcases h with hlt | ⟨rfl, hlt⟩
  · exact append_lt_append_of_lt (by rw [length_digits, length_digits]) (digits_lt_digits hlt hn)
  · exact List.append_left_lt hlt

theorem not_lt_zeros {a : List Char} (ha : ∀ c ∈ a, '0' ≤ c) :
    ¬ a < List.replicate a.length '0' := by
  induction a with
  | nil => exact List.not_lt_nil _
  | cons c a ih =>
    rw [List.length_cons, List.replicate_succ, List.cons_lt_cons_iff]
    rintro (hlt | ⟨-, hlt⟩)
    · exact absurd (ha c List.mem_cons_self) (not_le_of_gt hlt)
    · exact ih (fun d hd => ha d (List.mem_cons_of_mem _ hd)) hlt

/-- **Zeros may be cut off**: two texts of digits that become equally long when filled up with zeros
are in the order of the filled ones, if a mark that comes before all digits follows them. -/
theorem lt_of_cut_zeros {a b s : List Char} {c : Char} (hc : c < '0') (ha : ∀ d ∈ a, '0' ≤ d)
    (hb : ∀ d ∈ b, '0' ≤ d) {m n : ℕ} (hlen : a.length + m = b.length + n)
    (h : a ++ List.replicate m '0' < b ++ List.replicate n '0') : a ++ c :: s < b ++ c :: s := by
  induction a generalizing b with
  | nil =>
    cases b with
    | nil =>
      obtain rfl : m = n := by simpa using hlen
      exact absurd h (List.lt_irrefl _)
    | cons d b =>
      rw [List.nil_append, List.cons_append, List.cons_lt_cons_iff]
      exact Or.inl (lt_of_lt_of_le hc (hb d List.mem_cons_self))
  | cons d a ih =>
    cases b with
    | nil =>
      -- the filled texts would be in the other order
      rw [List.nil_append] at h
      have hdigits : ∀ e ∈ (d :: a) ++ List.replicate m '0', '0' ≤ e := by
        intro e he
        rcases List.mem_append.1 he with he | he
        · exact ha e he
        · exact (List.eq_of_mem_replicate he).ge
      have hn : n = ((d :: a) ++ List.replicate m '0').length := by
        rw [List.length_append, List.length_replicate, hlen, List.length_nil, Nat.zero_add]
      rw [hn] at h
      exact absurd h (not_lt_zeros hdigits)
    | cons e b =>
      rw [List.cons_append, List.cons_append, List.cons_lt_cons_iff] at h ⊢
      rcases h with hlt | ⟨heq, hlt⟩
      · exact Or.inl hlt
      · refine Or.inr ⟨heq, ih (fun f hf => ha f (List.mem_cons_of_mem _ hf))
          (fun f hf => hb f (List.mem_cons_of_mem _ hf)) ?_ hlt⟩
        rw [List.length_cons, List.length_cons] at hlen
        omega
