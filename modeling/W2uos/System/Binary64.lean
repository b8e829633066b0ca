import Mathlib

/-!
# Signs and order of floating-point numbers

`Float` is the `binary64` format with its rounding, its subnormal numbers, infinities and NaNs, and
computes in the kernel.  What a sum or a difference is rounded to is of no concern here, only on
which side of zero it lies; this is where rounding is exact, since the least number of the format
divides all others.

* `sub_pos_iff`, `sub_nonpos_iff` : a difference has the sign its terms ask for, whatever is
  rounded;
* `add_pos_iff`, `add_nonneg` : a sum of numbers that are not negative is positive exactly if one of
  them is;
* `div_nonneg` : a quotient of positive numbers may be rounded to zero, but not below;
* `add_beq_zero_iff` : adding to a zero gives a zero for a zero only.
-/

namespace Binary64

open Float.Model Float.Model.UnpackedFloat

instance natCastFloat : NatCast Float := ⟨Float.ofNat⟩

/-! ### Rounding keeps the sign -/

theorem mantissa_shiftRight (em : ExtendedMantissa) (k : ℕ) :
    (em >>> k).mantissa = em.mantissa / 2 ^ k := by
  induction k with
  | zero =>
    rw [Nat.pow_zero, Nat.div_one]
    rfl
  | succ k ih =>
    have hstep : em >>> (k + 1) = (em >>> k).shiftRightOne := rfl
    rw [hstep, ExtendedMantissa.shiftRightOne, ih, Nat.div_div_eq_div_mul, Nat.pow_succ]

theorem le_roundedMantissa (em : ExtendedMantissa) : em.mantissa ≤ em.roundedMantissa := by
  obtain ⟨m, roundBit, stickyBit⟩ := em
  cases roundBit <;> cases stickyBit <;>
    simp [ExtendedMantissa.roundedMantissa, ExtendedMantissa.accuracy, Accuracy.roundToNearestEven]

/-- A mantissa and an exponent that fit the format. -/
structure Fits (m : ℕ) (e : ℤ) : Prop where
  mantissa : m < 2 ^ 53
  exponent : -1074 ≤ e

theorem mantissa_ofMantissaAndAccuracy (m : ℕ) (a : Accuracy) :
    (ExtendedMantissa.ofMantissaAndAccuracy m a).mantissa = m := by
  cases a with
  | exact => rfl
  | inexact o => cases o <;> rfl

/-- The mantissa is shifted until it fits; it loses its last bit only where it was too small. -/
theorem shiftToTargetExponent_spec (m : ℕ) (e : ℤ) (a : Accuracy) :
    Fits (shiftToTargetExponent .binary64 m e a).1.mantissa
        (shiftToTargetExponent .binary64 m e a).2 ∧
      (-1074 ≤ e → 0 < m → 0 < (shiftToTargetExponent .binary64 m e a).1.mantissa) := by
  have htarget : Format.binary64.targetExponent (totalExponent m e) =
      max ((m.log2 : ℤ) + 1 + e - 53) (-1074) := rfl
  unfold shiftToTargetExponent shiftToExponent
  dsimp only
  rw [mantissa_shiftRight, mantissa_ofMantissaAndAccuracy, htarget]
  generalize hk : (max ((m.log2 : ℤ) + 1 + e - 53) (-1074) - e).toNat = k
  refine ⟨⟨?_, by omega⟩, ?_⟩
  · refine (Nat.div_lt_iff_lt_mul (Nat.two_pow_pos k)).2 ?_
    rw [← Nat.pow_add]
    exact Nat.lt_of_lt_of_le Nat.lt_log2_self (Nat.pow_le_pow_right (by decide) (by omega))
  · intro he hm
    refine Nat.div_pos ?_ (Nat.two_pow_pos k)
    exact (Nat.pow_le_pow_right (by decide) (by omega)).trans (Nat.log2_self_le hm.ne')

/-- What rounding gives: a zero or a number of the same sign, and no zero for a number that is a
multiple of the least one. -/
theorem roundWithAccuracy_spec (s : Sign) (m : ℕ) (e : ℤ) (a : Accuracy) :
    (roundWithAccuracy .binary64 s m e a = .zero s ∧ ¬ (-1074 ≤ e ∧ 0 < m)) ∨
      ∃ m' e' hm, roundWithAccuracy .binary64 s m e a = .finite s m' e' hm ∧ Fits m' e' := by
  obtain ⟨hfits, hpos⟩ := shiftToTargetExponent_spec m e a
  unfold roundWithAccuracy
  generalize shiftToTargetExponent .binary64 m e a = first at hfits hpos ⊢
  obtain ⟨em, e₁⟩ := first
  dsimp only at hfits hpos ⊢
  obtain ⟨hfits', hpos'⟩ := shiftToTargetExponent_spec em.roundedMantissa e₁ .exact
  generalize shiftToTargetExponent .binary64 em.roundedMantissa e₁ .exact = second at hfits' hpos' ⊢
  obtain ⟨em', e₂⟩ := second
  dsimp only at hfits' hpos' ⊢
  split_ifs with hzero
  · refine Or.inl ⟨rfl, ?_⟩
    rintro ⟨he, hm⟩
    have hround := hpos' hfits.exponent ((hpos he hm).trans_le (le_roundedMantissa em))
    exact hround.ne' hzero
  · exact Or.inr ⟨_, _, Nat.pos_of_ne_zero hzero, rfl, hfits'⟩

theorem round_spec (s : Sign) {m : ℕ} {e : ℤ} (hm : 0 < m) (he : -1074 ≤ e) :
    ∃ m' e' hm', round .binary64 s m e = .finite s m' e' hm' ∧ Fits m' e' := by
  have htarget : -1074 ≤ Format.binary64.targetExponent (totalExponent m e) :=
    le_max_right _ (-1074)
  unfold UnpackedFloat.round decreaseExponent
  dsimp only
  generalize Format.binary64.targetExponent (totalExponent m e) = t at htarget ⊢
  refine (roundWithAccuracy_spec s _ _ _).resolve_left ?_
  rintro ⟨-, hnot⟩
  refine hnot ⟨by omega, ?_⟩
  rw [Nat.shiftLeft_eq]
  exact Nat.mul_pos hm (Nat.two_pow_pos _)

/-! ### Packing keeps the sign -/

theorem unpackSign_packComponents (s : Sign) (e : BitVec 11) (m : BitVec 52) :
    Sign.ofBitVec (unpackSign (packComponents .binary64 s e m)) = s := by
  have hsign : unpackSign (packComponents .binary64 s e m) = s.toBitVec := by
    ext i hi
    obtain rfl : i = 0 := by omega
    have hbit : (s.toBitVec ++ e ++ m).getLsbD 63 = s.toBitVec.getLsbD 0 := by
      rw [BitVec.getLsbD_append, BitVec.getLsbD_append]
      rfl
    simp only [unpackSign, packComponents, BitVec.getElem_cast, BitVec.extractLsb,
      BitVec.getElem_extractLsb']
    exact hbit
  rw [hsign]
  cases s <;> rfl

/-- The order of a number and zero. -/
def orderZero (f : UnpackedFloat) : Option Ordering := f.compare (.zero .positive)

/-- The order of the numbers of a sign and zero. -/
def signOrder : Sign → Ordering
  | .negative => .lt
  | .positive => .gt

/-- A pattern that is neither a zero nor a NaN has the order of its sign. -/
theorem orderZero_unpack_packComponents (s : Sign) {e : BitVec 11} {m : BitVec 52}
    (hnan : e = -1#11 → m = 0#52) (hzero : e = 0#11 → m ≠ 0#52) :
    orderZero (unpack .binary64 (packComponents .binary64 s e m)) = some (signOrder s) := by
  unfold UnpackedFloat.unpack
  simp only [unpackMantissa_packComponents, unpackExponent_packComponents,
    unpackSign_packComponents]
  split_ifs with hinf hmant hsub hmant
  · cases s <;> rfl
  · exact absurd (hnan hinf) hmant
  · exact absurd hmant (hzero hsub)
  · cases s <;> rfl
  · cases s <;> rfl

/-- A number that fits is packed to a number or an infinity of its sign. -/
theorem orderZero_pack {s : Sign} {m : ℕ} {e : ℤ} (hm : 0 < m) (h : Fits m e) :
    orderZero (Float.Model.pack (.finite s m e hm)).unpack = some (signOrder s) := by
  obtain ⟨hmant, hexp⟩ := h
  have hbias : e + (Format.binary64.exponentBias : ℤ) +
      Format.binary64.mantissaBitsWithoutImplicit = e + 1075 := by
    rw [add_assoc]
    rfl
  unfold Float.Model.pack Float.Model.unpack UnpackedFloat.pack
  dsimp only
  simp only [hbias]
  split_ifs with hover hnormal
  · exact orderZero_unpack_packComponents s (fun _ => rfl) (by decide)
  · -- the exponent is neither the least nor the greatest
    have hlt : (e + 1075).toNat < 2 ^ 11 - 1 := by omega
    have hfield : (BitVec.ofNat 11 (e + 1075).toNat).toNat = (e + 1075).toNat :=
      BitVec.toNat_ofNat .. |>.trans (Nat.mod_eq_of_lt (by omega))
    refine orderZero_unpack_packComponents s (fun heq => ?_) (fun heq => ?_)
    · rw [heq] at hfield
      exact absurd hfield.symm hlt.ne
    · rw [heq] at hfield
      have hzero : (0 : ℕ) = (e + 1075).toNat := hfield
      omega
  · -- the mantissa has no implicit bit, so nothing of it is lost
    have hbits : m.log2 ≠ 52 := fun heq => hnormal (by rw [heq]; rfl)
    have hlt : m < 2 ^ 52 := by
      have hlog : m.log2 < 53 := (Nat.log2_lt hm.ne').2 hmant
      exact (Nat.log2_lt hm.ne').1 (by omega)
    refine orderZero_unpack_packComponents s (fun heq => absurd heq (by decide)) (fun _ heq => ?_)
    have hfield : (BitVec.ofNat 52 m).toNat = m :=
      BitVec.toNat_ofNat .. |>.trans (Nat.mod_eq_of_lt hlt)
    rw [heq] at hfield
    exact hm.ne hfield

/-! ### Numbers in the form of the format -/

/-- The mantissa has all its bits, or the exponent is the least one. -/
def Canonical : UnpackedFloat → Prop
  | .finite _ m e _ => Fits m e ∧ (2 ^ 52 ≤ m ∨ e = -1074)
  | _ => True

theorem canonical_unpack (b : BitVec 64) : Canonical (UnpackedFloat.unpack .binary64 b) := by
  have hmant : (@unpackMantissa .binary64 b).toNat < 2 ^ 52 := BitVec.isLt _
  have hbias : (Format.binary64.exponentBias : ℤ) + (52 : ℕ) = 1075 := rfl
  unfold UnpackedFloat.unpack
  dsimp only
  rw [hbias]
  split_ifs with hinf hzero hsub hnone
  · trivial
  · trivial
  · trivial
  · refine ⟨⟨Nat.lt_of_lt_of_le hmant (by decide), ?_⟩, Or.inr ?_⟩ <;> rw [hsub] <;> decide
  · have hfield : (@unpackExponent .binary64 b).toNat ≠ 0 :=
      fun h => hsub (BitVec.eq_of_toNat_eq h)
    have himplicit : (1#1 ++ @unpackMantissa .binary64 b).toNat =
        2 ^ 52 + (@unpackMantissa .binary64 b).toNat := by
      rw [BitVec.toNat_append, ← Nat.shiftLeft_add_eq_or_of_lt hmant]
      rfl
    refine ⟨⟨?_, by omega⟩, Or.inl ?_⟩
    · rw [himplicit]
      omega
    · rw [himplicit]
      omega

/-- The numbers are in the order of their exponents and, with the same exponent, of their
mantissas. -/
theorem compare_finite {m n : ℕ} {e f : ℤ} (hm : Fits m e ∧ (2 ^ 52 ≤ m ∨ e = -1074))
    (hn : Fits n f ∧ (2 ^ 52 ≤ n ∨ f = -1074)) :
    (compare e f).then (compare m n) =
      compare (m <<< (e - min e f).toNat) (n <<< (f - min e f).toNat) := by
  obtain ⟨⟨hm, he⟩, hm'⟩ := hm
  obtain ⟨⟨hn, hf⟩, hn'⟩ := hn
  rw [Nat.shiftLeft_eq, Nat.shiftLeft_eq]
  rcases lt_trichotomy e f with hlt | rfl | hgt
  · -- the second mantissa has all its bits
    have hpow : 2 ≤ 2 ^ (f - min e f).toNat := by
      calc 2 = 2 ^ 1 := rfl
        _ ≤ 2 ^ (f - min e f).toNat := Nat.pow_le_pow_right (by decide) (by omega)
    have hle := Nat.mul_le_mul (hn'.resolve_right (by omega)) hpow
    have hself : (e - min e f).toNat = 0 := by omega
    rw [compare_lt_iff_lt.2 hlt, hself, Nat.pow_zero, Nat.mul_one, eq_comm]
    exact compare_lt_iff_lt.2 (by omega)
  · rw [min_self, Int.sub_self, compare_eq_iff_eq.2 rfl]
    simp
  · have hpow : 2 ≤ 2 ^ (e - min e f).toNat := by
      calc 2 = 2 ^ 1 := rfl
        _ ≤ 2 ^ (e - min e f).toNat := Nat.pow_le_pow_right (by decide) (by omega)
    have hle := Nat.mul_le_mul (hm'.resolve_right (by omega)) hpow
    have hself : (f - min e f).toNat = 0 := by omega
    rw [compare_gt_iff_gt.2 hgt, hself, Nat.pow_zero, Nat.mul_one, eq_comm]
    exact compare_gt_iff_gt.2 (by omega)

theorem orderZero_normalize (n : ℤ) {e : ℤ} (he : -1074 ≤ e) :
    orderZero (Float.Model.pack (normalize .binary64 n e .positive)).unpack =
      some (compare n 0) := by
  unfold UnpackedFloat.normalize
  rcases lt_trichotomy n 0 with hlt | rfl | hgt
  · obtain ⟨m, f, hm, hround, hfits⟩ := round_spec .negative (by omega : 0 < (-n).toNat) he
    rw [compare_lt_iff_lt.2 hlt]
    dsimp only
    rw [hround, orderZero_pack hm hfits]
    rfl
  · show orderZero (Float.Model.pack (.zero .positive)).unpack = some .eq
    decide
  · obtain ⟨m, f, hm, hround, hfits⟩ := round_spec .positive (by omega : 0 < n.toNat) he
    rw [compare_gt_iff_gt.2 hgt]
    dsimp only
    rw [hround, orderZero_pack hm hfits]
    rfl

theorem orderZero_pack_notANumber :
    orderZero (Float.Model.pack .notANumber).unpack = none := by decide

theorem orderZero_pack_infinity (s : Sign) :
    orderZero (Float.Model.pack (.infinity s)).unpack = some (signOrder s) := by
  cases s <;> decide

theorem orderZero_pack_zero (s : Sign) :
    orderZero (Float.Model.pack (.zero s)).unpack = some .eq := by
  cases s <;> decide

theorem shiftLeft_pos {m : ℕ} (hm : 0 < m) (k : ℕ) : 0 < m <<< k := by
  rw [Nat.shiftLeft_eq]
  exact Nat.mul_pos hm (Nat.two_pow_pos _)

/-- **Subtraction and order**: a difference has the order to zero that its terms have to each other,
rounded as it is; infinities of one sign have no difference. -/
theorem orderZero_sub {a b : UnpackedFloat} (ha : Canonical a) (hb : Canonical b)
    (hinf : ∀ s, ¬ (a = .infinity s ∧ b = .infinity s)) :
    orderZero (Float.Model.pack (sub .binary64 a b)).unpack = a.compare b := by
  cases a with
  | notANumber => cases b <;> exact orderZero_pack_notANumber
  | infinity s =>
    cases b with
    | infinity t =>
      cases s <;> cases t
      · exact absurd ⟨rfl, rfl⟩ (hinf .negative)
      · exact orderZero_pack_infinity _
      · exact orderZero_pack_infinity _
      · exact absurd ⟨rfl, rfl⟩ (hinf .positive)
    | notANumber => cases s <;> exact orderZero_pack_notANumber
    | zero t => cases s <;> exact orderZero_pack_infinity _
    | finite t n f hn => cases s <;> exact orderZero_pack_infinity _
  | zero s =>
    cases b with
    | infinity t => cases t <;> exact orderZero_pack_infinity _
    | notANumber => exact orderZero_pack_notANumber
    | zero t => cases s <;> cases t <;> exact orderZero_pack_zero _
    | finite t n f hn =>
      refine (orderZero_pack hn hb.1).trans ?_
      cases t <;> rfl
  | finite s m e hm =>
    cases b with
    | infinity t => cases t <;> exact orderZero_pack_infinity _
    | notANumber => exact orderZero_pack_notANumber
    | zero t =>
      refine (orderZero_pack hm ha.1).trans ?_
      cases s <;> rfl
    | finite t n f hn =>
      have hexp : -1074 ≤ min e f := le_min ha.1.exponent hb.1.exponent
      refine (orderZero_normalize _ hexp).trans ?_
      have horder := compare_finite ha hb
      have hM := shiftLeft_pos hm (e - min e f).toNat
      have hN := shiftLeft_pos hn (f - min e f).toNat
      generalize m <<< (e - min e f).toNat = M at hM horder ⊢
      generalize n <<< (f - min e f).toNat = N at hN horder ⊢
      -- the signs decide, or the amounts do
      cases s <;> cases t
      · show some (compare (-(M : ℤ) - -(N : ℤ)) 0) = some ((compare e f).then (compare m n)).swap
        rw [horder, Nat.compare_swap]
        rcases lt_trichotomy M N with h | rfl | h
        · rw [compare_gt_iff_gt.2 (by omega), compare_gt_iff_gt.2 h]
        · rw [compare_eq_iff_eq.2 (by omega), compare_eq_iff_eq.2 rfl]
        · rw [compare_lt_iff_lt.2 (by omega), compare_lt_iff_lt.2 h]
      · have hlt : -(M : ℤ) - (N : ℤ) < 0 := by omega
        exact congrArg some (compare_lt_iff_lt.2 hlt)
      · have hgt : (M : ℤ) - -(N : ℤ) > 0 := by omega
        exact congrArg some (compare_gt_iff_gt.2 hgt)
      · show some (compare ((M : ℤ) - (N : ℤ)) 0) = some ((compare e f).then (compare m n))
        rw [horder]
        rcases lt_trichotomy M N with h | rfl | h
        · rw [compare_lt_iff_lt.2 (by omega), compare_lt_iff_lt.2 h]
        · rw [compare_eq_iff_eq.2 (by omega), compare_eq_iff_eq.2 rfl]
        · rw [compare_gt_iff_gt.2 (by omega), compare_gt_iff_gt.2 h]

theorem canonical_neg {a : UnpackedFloat} (ha : Canonical a) : Canonical a.neg := by
  cases a with
  | finite s m e hm => exact ha
  | _ => trivial

theorem add_eq_sub_neg (spec : Format) (a b : UnpackedFloat) :
    add spec a b = sub spec a b.neg := by
  have happly : ∀ (s : Sign) (n : ℤ), (-s).apply n = -s.apply n := by
    intro s n
    cases s
    · exact (neg_neg n).symm
    · rfl
  cases a with
  | finite s m e hm =>
    cases b with
    | finite t n f hn =>
      show normalize spec (s.apply _ + t.apply _) _ _ =
        normalize spec (s.apply _ - (-t).apply _) _ _
      rw [happly, sub_neg_eq_add]
    | infinity t => cases t <;> rfl
    | zero t => rfl
    | notANumber => rfl
  | infinity s =>
    cases b with
    | infinity t => cases s <;> cases t <;> rfl
    | _ => rfl
  | zero s =>
    cases b with
    | zero t => cases s <;> cases t <;> rfl
    | finite t n f hn => cases t <;> rfl
    | infinity t => cases t <;> rfl
    | notANumber => rfl
  | notANumber => cases b <;> rfl

theorem orderZero_div {a b : UnpackedFloat} (ha : orderZero a = some .gt)
    (hb : orderZero b = some .gt) (hinf : ¬ a = .infinity .positive) :
    orderZero (Float.Model.pack (div .binary64 a b)).unpack = some .eq ∨
      orderZero (Float.Model.pack (div .binary64 a b)).unpack = some .gt := by
  cases a with
  | notANumber => cases ha
  | infinity s =>
    cases s
    · cases ha
    · exact absurd rfl hinf
  | zero s => cases ha
  | finite s m e hm =>
    cases s with
    | negative => cases ha
    | positive =>
      cases b with
      | notANumber => cases hb
      | infinity t =>
        cases t
        · cases hb
        · exact Or.inl (orderZero_pack_zero _)
      | zero t => cases hb
      | finite t n f hn =>
        cases t with
        | negative => cases hb
        | positive =>
          rcases roundWithAccuracy_spec (.positive / .positive) (divCore .binary64 m e n f).1
              (divCore .binary64 m e n f).2.1 (divCore .binary64 m e n f).2.2 with
            ⟨hround, -⟩ | ⟨m', e', hm', hround, hfits⟩
          · exact Or.inl ((congrArg (fun c => orderZero (Float.Model.pack c).unpack) hround).trans
              (orderZero_pack_zero _))
          · exact Or.inr ((congrArg (fun c => orderZero (Float.Model.pack c).unpack) hround).trans
              (orderZero_pack hm' hfits))

/-! ### The order of `Float` -/

/-- The order of two numbers, if neither is a NaN. -/
def order (x y : Float) : Option Ordering := x.toModel.unpack.compare y.toModel.unpack

theorem lt_iff {x y : Float} : x < y ↔ order x y = some .lt := by
  show Float.lt x y = true ↔ _
  unfold Float.lt
  rw [decide_eq_true_eq]
  show (order x y == some .lt) = true ↔ _
  rw [beq_iff_eq]

theorem le_iff {x y : Float} : x ≤ y ↔ order x y = some .lt ∨ order x y = some .eq := by
  show Float.le x y = true ↔ _
  unfold Float.le
  rw [decide_eq_true_eq]
  show (order x y).any (·.isLE) = true ↔ _
  rcases order x y with _ | o
  · simp
  · cases o <;> simp

theorem beq_iff {x y : Float} : (x == y) = true ↔ order x y = some .eq := by
  show (order x y == some .eq) = true ↔ _
  rw [beq_iff_eq]

theorem order_zero (x : Float) : order x 0 = orderZero x.toModel.unpack := rfl

theorem canonical_toModel (x : Float) : Canonical x.toModel.unpack := canonical_unpack _

theorem compare_swap (a b : UnpackedFloat) : b.compare a = (a.compare b).map Ordering.swap := by
  have hsign : ∀ s t : Sign, compare t s = (compare s t).swap := by
    intro s t
    cases s <;> cases t <;> rfl
  cases a with
  | notANumber => cases b <;> rfl
  | infinity s =>
    cases b with
    | infinity t => exact congrArg some (hsign s t)
    | _ => cases s <;> rfl
  | zero s =>
    cases b with
    | infinity t => cases t <;> rfl
    | finite t n f hn => cases t <;> rfl
    | _ => rfl
  | finite s m e hm =>
    cases b with
    | infinity t => cases t <;> rfl
    | zero t => cases s <;> rfl
    | notANumber => rfl
    | finite t n f hn =>
      have hswap : (compare f e).then (compare n m) = ((compare e f).then (compare m n)).swap := by
        rw [Ordering.swap_then, Int.compare_swap, Nat.compare_swap]
      cases s <;> cases t
      · exact congrArg some (congrArg Ordering.swap hswap)
      · rfl
      · rfl
      · exact congrArg some hswap

theorem order_swap (x y : Float) : order y x = (order x y).map Ordering.swap :=
  compare_swap _ _

theorem unpack_ne_infinity {x : Float} (hx : x.isFinite = true) (s : Sign) :
    x.toModel.unpack ≠ .infinity s := by
  intro h
  have hfinite : x.toModel.unpack.isFinite = true := hx
  rw [h] at hfinite
  cases hfinite

theorem order_sub {x y : Float}
    (hinf : ∀ s, ¬ (x.toModel.unpack = .infinity s ∧ y.toModel.unpack = .infinity s)) :
    order (x - y) 0 = order x y :=
  orderZero_sub (canonical_toModel x) (canonical_toModel y) hinf

/-! ### Signs of results -/

theorem lt_iff_gt {x y : Float} : x < y ↔ order y x = some .gt := by
  rw [lt_iff, order_swap y x]
  rcases order y x with _ | o
  · simp
  · cases o <;> simp

theorem le_iff_ge {x y : Float} : x ≤ y ↔ order y x = some .gt ∨ order y x = some .eq := by
  rw [le_iff, order_swap y x]
  rcases order y x with _ | o
  · simp
  · cases o <;> simp

/-- **A difference is positive** exactly if its terms are in that order. -/
theorem sub_pos_iff (x y : Float) : 0 < x - y ↔ y < x := by
  rw [lt_iff_gt, lt_iff_gt]
  by_cases hinf : ∃ s, x.toModel.unpack = .infinity s ∧ y.toModel.unpack = .infinity s
  · -- infinities of one sign have no difference, and are in no order
    obtain ⟨s, hx, hy⟩ := hinf
    have hsub : order (x - y) 0 = none := by
      show orderZero (Float.Model.pack (sub .binary64 x.toModel.unpack y.toModel.unpack)).unpack = _
      rw [hx, hy]
      cases s <;> exact orderZero_pack_notANumber
    rw [hsub, order, hx, hy]
    cases s <;> simp [UnpackedFloat.compare]
  · rw [order_sub fun s h => hinf ⟨s, h⟩]

theorem sub_nonpos_iff (x : Float) {y : Float} (hy : y.isFinite = true) : x - y ≤ 0 ↔ x ≤ y := by
  rw [le_iff, le_iff, order_sub fun s h => unpack_ne_infinity hy s h.2]

/-- A difference of numbers in order is not negative, if there is one. -/
theorem sub_nonneg {x y : Float} (h : y ≤ x) : 0 ≤ x - y ∨ (x - y).isNaN = true := by
  by_cases hinf : ∃ s, x.toModel.unpack = .infinity s ∧ y.toModel.unpack = .infinity s
  · obtain ⟨s, hx, hy⟩ := hinf
    right
    show (Float.Model.pack (sub .binary64 x.toModel.unpack y.toModel.unpack)).unpack.isNaN = true
    rw [hx, hy]
    cases s <;> decide
  · left
    rw [le_iff_ge, order_sub fun s h => hinf ⟨s, h⟩]
    exact le_iff_ge.1 h

theorem compare_neg {a b : UnpackedFloat} {p q : Ordering} (ha : orderZero a = some p)
    (hb : orderZero b = some q) (hp : p ≠ .lt) (hq : q ≠ .lt) :
    a.compare b.neg = some (p.then q) := by
  rcases a with (_ | _) | _ | s | ⟨_ | _, m, e, hm⟩ <;>
    rcases b with (_ | _) | _ | t | ⟨_ | _, n, f, hn⟩ <;>
    cases ha <;> cases hb <;>
    first
      | exact absurd rfl hp
      | exact absurd rfl hq
      | rfl

theorem order_add {x y : Float} {p q : Ordering} (hx : order x 0 = some p) (hy : order y 0 = some q)
    (hp : p ≠ .lt) (hq : q ≠ .lt) : order (x + y) 0 = some (p.then q) := by
  have hcompare := compare_neg hx hy hp hq
  have hinf : ∀ s, ¬ (x.toModel.unpack = .infinity s ∧ y.toModel.unpack.neg = .infinity s) := by
    rintro s ⟨hx', hy'⟩
    rw [order_zero, hx'] at hx
    rw [hx', hy'] at hcompare
    cases s with
    | negative =>
      cases hx
      exact hp rfl
    | positive =>
      cases hx
      cases hcompare
  have hsub := orderZero_sub (canonical_toModel x) (canonical_neg (canonical_toModel y)) hinf
  rw [← add_eq_sub_neg, hcompare] at hsub
  exact hsub

theorem add_pos_iff {x y : Float} (hx : 0 ≤ x) (hy : 0 ≤ y) : 0 < x + y ↔ 0 < x ∨ 0 < y := by
  rw [lt_iff_gt, lt_iff_gt, lt_iff_gt]
  rcases le_iff_ge.1 hx with hx | hx <;> rcases le_iff_ge.1 hy with hy | hy <;>
    rw [order_add hx hy (by decide) (by decide), hx, hy] <;> simp

theorem add_nonneg {x y : Float} (hx : 0 ≤ x) (hy : 0 ≤ y) : 0 ≤ x + y := by
  rw [le_iff_ge]
  rcases le_iff_ge.1 hx with hx | hx <;> rcases le_iff_ge.1 hy with hy | hy <;>
    rw [order_add hx hy (by decide) (by decide)] <;> simp

theorem isNaN_add {x : Float} (hx : x.isNaN = true) (y : Float) : (x + y).isNaN = true := by
  have hx' : x.toModel.unpack.isNaN = true := hx
  show (Float.Model.pack (add .binary64 x.toModel.unpack y.toModel.unpack)).unpack.isNaN = true
  generalize x.toModel.unpack = a at hx' ⊢
  have hnan : (Float.Model.pack .notANumber).unpack.isNaN = true := by decide
  cases a with
  | notANumber => cases y.toModel.unpack <;> exact hnan
  | _ => cases hx'

theorem not_nonneg_of_isNaN {x : Float} (hx : x.isNaN = true) : ¬ 0 ≤ x := by
  have hx' : x.toModel.unpack.isNaN = true := hx
  rw [le_iff_ge, order_zero]
  generalize x.toModel.unpack = a at hx' ⊢
  cases a with
  | notANumber => simp [orderZero, UnpackedFloat.compare]
  | _ => cases hx'

theorem div_nonneg {x y : Float} (hx : 0 < x) (hfinite : x.isFinite = true) (hy : 0 < y) :
    0 ≤ x / y := by
  rw [le_iff_ge]
  exact (orderZero_div (lt_iff_gt.1 hx) (lt_iff_gt.1 hy) (unpack_ne_infinity hfinite _)).symm

theorem nonneg_of_pos {x : Float} (hx : 0 < x) : 0 ≤ x := le_iff.2 (Or.inl (lt_iff.1 hx))

theorem not_le_of_lt {x y : Float} (h : x < y) : ¬ y ≤ x := by
  rw [le_iff_ge, lt_iff.1 h]
  simp

/-- Numbers in order are different exactly if they are not in the other order. -/
theorem lt_iff_of_le {x y : Float} (h : x ≤ y) : x < y ↔ ¬ y ≤ x := by
  rw [lt_iff, le_iff_ge]
  rcases le_iff.1 h with h | h <;> simp [h]

theorem not_le_iff {x y : Float} (hx : 0 ≤ x) (hy : 0 ≤ y) : ¬ x ≤ y ↔ y < x := by
  have hsome : order x y ≠ none := by
    rw [le_iff_ge, order_zero] at hx hy
    unfold order
    generalize x.toModel.unpack = a at hx ⊢
    generalize y.toModel.unpack = b at hy ⊢
    rcases a with s | _ | s | ⟨s, m, e, hm⟩ <;> rcases b with t | _ | t | ⟨t, n, f, hn⟩ <;>
      (try cases s) <;> (try cases t) <;> simp_all [orderZero, UnpackedFloat.compare]
  rw [le_iff, lt_iff_gt]
  rcases h : order x y with _ | o
  · exact absurd h hsome
  · cases o <;> simp

/-! ### Zeros -/

theorem orderZero_zero_add (s : Sign) {b : UnpackedFloat} (hb : Canonical b) :
    orderZero (Float.Model.pack (add .binary64 (.zero s) b)).unpack = orderZero b := by
  cases b with
  | notANumber => exact orderZero_pack_notANumber
  | infinity t =>
    refine (orderZero_pack_infinity t).trans ?_
    cases t <;> rfl
  | zero t => cases s <;> cases t <;> exact orderZero_pack_zero _
  | finite t n f hn =>
    refine (orderZero_pack hn hb.1).trans ?_
    cases t <;> rfl

theorem orderZero_neg {b : UnpackedFloat} (hb : Canonical b) :
    orderZero (Float.Model.pack b.neg).unpack = (orderZero b).map Ordering.swap := by
  cases b with
  | notANumber => exact orderZero_pack_notANumber
  | infinity t =>
    refine (orderZero_pack_infinity (-t)).trans ?_
    cases t <;> rfl
  | zero t => exact orderZero_pack_zero (-t)
  | finite t n f hn =>
    refine (orderZero_pack hn hb.1).trans ?_
    cases t <;> rfl

theorem order_add_of_beq_zero {x : Float} (hx : (x == 0) = true) (y : Float) :
    order (x + y) 0 = order y 0 := by
  rw [beq_iff, order_zero] at hx
  have hadd := fun s => orderZero_zero_add s (canonical_toModel y)
  show orderZero (Float.Model.pack (add .binary64 x.toModel.unpack y.toModel.unpack)).unpack = _
  generalize x.toModel.unpack = a at hx ⊢
  rcases a with (_ | _) | _ | s | ⟨_ | _, m, e, hm⟩ <;> cases hx
  exact hadd s

theorem add_beq_zero_iff {x : Float} (hx : (x == 0) = true) (y : Float) :
    (x + y == 0) = true ↔ (y == 0) = true := by
  rw [beq_iff, beq_iff, order_add_of_beq_zero hx]

theorem neg_beq_zero_iff (y : Float) : (-y == 0) = true ↔ (y == 0) = true := by
  have hneg : order (-y) 0 = (order y 0).map Ordering.swap := orderZero_neg (canonical_toModel y)
  rw [beq_iff, beq_iff, hneg]
  rcases order y 0 with _ | o
  · simp
  · cases o <;> simp

theorem zero_sub_nonpos {y : Float} (hy : (y == 0) = true) : 0 - y ≤ 0 := by
  have hinf : ∀ s, ¬ ((0 : Float).toModel.unpack = .infinity s ∧ y.toModel.unpack = .infinity s) :=
    fun s h => by cases h.1
  rw [le_iff, order_sub hinf, order_swap y 0, beq_iff.1 hy]
  exact Or.inr rfl

theorem zero_add_nonpos {y : Float} (hy : (y == 0) = true) : 0 + y ≤ 0 := by
  rw [le_iff, order_add_of_beq_zero (by decide), beq_iff.1 hy]
  exact Or.inr rfl

end Binary64
