import Mathlib.Data.List.Induction
import W2uos.Data.Types
import W2uos.System.Calendar
import W2uos.System.Digits

/-!
# Timestamps as text

`to_rfc3339` prints a timestamp with its year, month and day, the time of day, and the offset.  The
fraction of a second is written with as few of 0, 3, 6 or 9 digits as it needs, and the offset
follows it.  A year before 0 or after 9999 is written with its sign.  All characters are ASCII, so
that the order of the strings is the order of their bytes.

* `toRfc3339_lt_iff` : in the years 0 to 9999 the texts are in the order of time.
* `toRfc3339_lt_of_not` : the texts of all other years come before these.
* `textBetween_iff` : what is between two texts is between the two timestamps.
-/

namespace W2uos

open Calendar

/-! ### The text of a timestamp -/

/-- The nanoseconds of a day. -/
def nanosPerDay : ℕ := 86400000000000

/-- The nanoseconds from the first of January of the year 0 to the first of January 1970. -/
def epochNanos : ℕ := 719528 * nanosPerDay

/-- The timestamp lies in one of the years 0 to 9999. -/
def FourDigitYear (t : DateTime) : Prop :=
  0 ≤ t + epochNanos ∧ t + epochNanos < ((daysBeforeYear 10000 * nanosPerDay : ℕ) : ℤ)

instance (t : DateTime) : Decidable (FourDigitYear t) := inferInstanceAs (Decidable (_ ∧ _))

/-- The nanoseconds since the beginning of the year 0. -/
def sinceYearZero (t : DateTime) : ℕ := (t + epochNanos).toNat

/-- `YYYY-MM-DD`. -/
def dateText (d : ℕ) : List Char :=
  digits 4 (yearOf d) ++ '-' ::
    (digits 2 (monthOf (isLeap (yearOf d)) (dayOfYear d)) ++ '-' ::
      digits 2 (dayOfMonth (isLeap (yearOf d)) (dayOfYear d)))

/-- `HH:MM:SS`. -/
def timeText (s : ℕ) : List Char :=
  digits 2 (s / 3600) ++ ':' :: (digits 2 (s / 60 % 60) ++ ':' :: digits 2 (s % 60))

/-- The fraction of a second, with as many digits as it needs. -/
def fractionText (n : ℕ) : List Char :=
  if n = 0 then []
  else if n % 1000000 = 0 then '.' :: digits 3 (n / 1000000)
  else if n % 1000 = 0 then '.' :: digits 6 (n / 1000)
  else '.' :: digits 9 n

/-- The time of day, so many nanoseconds after a midnight, and the offset. -/
def clockText (n : ℕ) : List Char :=
  timeText (n / 1000000000 % 86400) ++
    (fractionText (n % 1000000000) ++ ['+', '0', '0', ':', '0', '0'])

/-- The text of the instant so many nanoseconds after the beginning of the year 0. -/
def instantText (n : ℕ) : List Char := dateText (n / nanosPerDay) ++ 'T' :: clockText n

/-- `{:+05}` : the sign of a year, and at least four digits. -/
def signedYear (y : ℤ) : List Char :=
  (if y < 0 then '-' else '+') :: digits (max 4 (Nat.toDigits 10 y.natAbs).length) y.natAbs

/-- The date of a day of any year, which is a day of a cycle of 400 years. -/
def signedDateText (d : ℤ) : List Char :=
  let day := (d % 146097).toNat
  signedYear (400 * (d / 146097) + yearOf day) ++ '-' ::
    (digits 2 (monthOf (isLeap (yearOf day)) (dayOfYear day)) ++ '-' ::
      digits 2 (dayOfMonth (isLeap (yearOf day)) (dayOfYear day)))

/-- The text of an instant before the year 0 or after the year 9999. -/
def signedText (n : ℤ) : List Char :=
  signedDateText (n / nanosPerDay) ++ 'T' :: clockText (n % nanosPerDay).toNat

/-- `DateTime::to_rfc3339`. -/
def toRfc3339 (t : DateTime) : String :=
  String.ofList
    (if FourDigitYear t then instantText (sinceYearZero t) else signedText (t + epochNanos))

/-- A text with a fraction of six digits, and one with a sign. -/
example : toRfc3339 1709210096000123000 = "2024-02-29T12:34:56.000123+00:00" ∧
    toRfc3339 253402300800000000000 = "+10000-01-01T00:00:00+00:00" := by
  decide +kernel

theorem toRfc3339_of_year {t : DateTime} (h : FourDigitYear t) :
    toRfc3339 t = String.ofList (instantText (sinceYearZero t)) := by
  rw [toRfc3339, if_pos h]

/-! ### Texts in the order of time -/

@[simp] theorem length_dateText (d : ℕ) : (dateText d).length = 10 := by simp [dateText]

@[simp] theorem length_timeText (s : ℕ) : (timeText s).length = 8 := by simp [timeText]

theorem dateText_lt {d e : ℕ} (h : d < e) (he : e < daysBeforeYear 10000) :
    dateText d < dateText e := by
  have hyear : yearOf e < 10 ^ 4 := by
    by_contra hle
    have hmono := daysBeforeYear_strictMono.monotone (Nat.le_of_not_lt hle)
    have hin := (daysBeforeYear_yearOf e).1
    exact absurd (Nat.le_trans hmono hin) (Nat.not_le_of_lt he)
  have hmonth : ∀ leap n, monthOf leap n < 10 ^ 2 := fun leap n =>
    Nat.lt_of_le_of_lt (monthOf_le leap n) (by decide)
  have hday : dayOfMonth (isLeap (yearOf e)) (dayOfYear e) < 10 ^ 2 :=
    Nat.lt_of_le_of_lt (dayOfMonth_le (dayOfYear_lt e)) (by decide)
  unfold dateText
  refine digits_append_lt hyear ?_
  rcases date_lt h with hlt | ⟨heq, hrest⟩
  · exact Or.inl hlt
  · refine Or.inr ⟨heq, List.cons_lt_cons_self.2 (digits_append_lt (hmonth _ _) ?_)⟩
    rcases hrest with hlt | ⟨heq', hlt⟩
    · exact Or.inl hlt
    · exact Or.inr ⟨heq', List.cons_lt_cons_self.2 (digits_lt_digits hlt hday)⟩

theorem timeText_lt {s u : ℕ} (h : s < u) (hu : u < 86400) : timeText s < timeText u := by
  unfold timeText
  refine digits_append_lt (by omega) ?_
  by_cases hhour : s / 3600 < u / 3600
  · exact Or.inl hhour
  · refine Or.inr ⟨by omega, List.cons_lt_cons_self.2 (digits_append_lt (by omega) ?_)⟩
    by_cases hminute : s / 60 % 60 < u / 60 % 60
    · exact Or.inl hminute
    · exact Or.inr ⟨by omega, List.cons_lt_cons_self.2 (digits_lt_digits (by omega) (by omega))⟩

/-- A fraction is written with the leading ones of nine digits, and the others are zeros. -/
theorem fractionText_of_pos {n : ℕ} (hn : 0 < n) :
    ∃ w k, w + k = 9 ∧ fractionText n = '.' :: digits w (n / 10 ^ k) ∧
      digits 9 n = digits w (n / 10 ^ k) ++ List.replicate k '0' := by
  have hcut : ∀ w k, w + k = 9 → n % 10 ^ k = 0 →
      digits 9 n = digits w (n / 10 ^ k) ++ List.replicate k '0' := by
    intro w k hwk hzero
    rw [← hwk, digits_add, hzero, digits_zeros]
  unfold fractionText
  rw [if_neg (Nat.ne_of_gt hn)]
  split_ifs with h6 h3
  · exact ⟨3, 6, rfl, rfl, hcut 3 6 rfl h6⟩
  · exact ⟨6, 3, rfl, rfl, hcut 6 3 rfl h3⟩
  · refine ⟨9, 0, rfl, ?_, hcut 9 0 rfl (Nat.mod_one n)⟩
    rw [Nat.pow_zero, Nat.div_one]

/-- **Later fractions have later texts**, whatever number of digits they are written with, since
what follows them comes before the point and the point before the digits. -/
theorem fractionText_lt {m n : ℕ} (h : m < n) (hn : n < 1000000000) (rest : List Char) :
    fractionText m ++ '+' :: rest < fractionText n ++ '+' :: rest := by
  obtain ⟨w, k, hwk, htext, hdigits⟩ := fractionText_of_pos (Nat.zero_lt_of_lt h)
  rcases Nat.eq_zero_or_pos m with rfl | hm
  · rw [htext]
    exact List.cons_lt_cons_iff.2 (Or.inl (by decide))
  · obtain ⟨w', k', hwk', htext', hdigits'⟩ := fractionText_of_pos hm
    rw [htext, htext', List.cons_append, List.cons_append, List.cons_lt_cons_self]
    have hnine := digits_lt_digits (w := 9) h hn
    rw [hdigits, hdigits'] at hnine
    exact lt_of_cut_zeros (by decide) (fun c hc => zero_le_of_mem_digits hc)
      (fun c hc => zero_le_of_mem_digits hc)
      (by rw [length_digits, length_digits, hwk, hwk']) hnine

/-- Later instants have later texts: the first of day, second and nanosecond that differs
decides. -/
theorem instantText_lt {m n : ℕ} (h : m < n) (hn : n < daysBeforeYear 10000 * nanosPerDay) :
    instantText m < instantText n := by
  unfold instantText clockText
  by_cases hday : m / nanosPerDay < n / nanosPerDay
  · have hlast : n / nanosPerDay < daysBeforeYear 10000 :=
      (Nat.div_lt_iff_lt_mul (by decide)).2 hn
    exact append_lt_append_of_lt (by rw [length_dateText, length_dateText])
      (dateText_lt hday hlast)
  have hday : m / nanosPerDay = n / nanosPerDay :=
    Nat.le_antisymm (Nat.div_le_div_right (Nat.le_of_lt h)) (Nat.le_of_not_lt hday)
  rw [hday]
  refine List.append_left_lt (List.cons_lt_cons_self.2 ?_)
  unfold nanosPerDay at hday
  by_cases hsecond : m / 1000000000 % 86400 < n / 1000000000 % 86400
  · exact append_lt_append_of_lt (by rw [length_timeText, length_timeText])
      (timeText_lt hsecond (Nat.mod_lt _ (by decide)))
  have hsecond : m / 1000000000 % 86400 = n / 1000000000 % 86400 := by omega
  rw [hsecond]
  exact List.append_left_lt (fractionText_lt (by omega) (Nat.mod_lt _ (by decide)) _)

theorem toRfc3339_lt {t u : DateTime} (ht : FourDigitYear t) (hu : FourDigitYear u) (h : t < u) :
    toRfc3339 t < toRfc3339 u := by
  rw [toRfc3339_of_year ht, toRfc3339_of_year hu]
  obtain ⟨ht, -⟩ := ht
  obtain ⟨hu, hu'⟩ := hu
  have hsum : t + epochNanos < u + epochNanos := Int.add_lt_add_right h _
  have hlt : sinceYearZero t < sinceYearZero u :=
    (Int.toNat_lt_toNat (lt_of_le_of_lt ht hsum)).2 hsum
  rw [String.lt_iff_toList_lt, String.toList_ofList, String.toList_ofList]
  exact instantText_lt hlt ((Int.toNat_lt hu).2 hu')

/-- **Texts are in the order of time.** -/
theorem toRfc3339_lt_iff {t u : DateTime} (ht : FourDigitYear t) (hu : FourDigitYear u) :
    toRfc3339 t < toRfc3339 u ↔ t < u := by
  refine ⟨fun h => ?_, toRfc3339_lt ht hu⟩
  rcases lt_trichotomy t u with hlt | rfl | hgt
  · exact hlt
  · exact absurd h (lt_irrefl _)
  · exact absurd (toRfc3339_lt hu ht hgt) (lt_asymm h)

theorem toRfc3339_le_iff {t u : DateTime} (ht : FourDigitYear t) (hu : FourDigitYear u) :
    toRfc3339 t ≤ toRfc3339 u ↔ t ≤ u := by
  rw [← not_lt, ← not_lt, toRfc3339_lt_iff hu ht]

theorem toRfc3339_inj {t u : DateTime} (ht : FourDigitYear t) (hu : FourDigitYear u) :
    toRfc3339 t = toRfc3339 u ↔ t = u := by
  rw [le_antisymm_iff, le_antisymm_iff, toRfc3339_le_iff ht hu, toRfc3339_le_iff hu ht]

/-- **A signed year comes before all others**, on whichever side of them it lies. -/
theorem toRfc3339_lt_of_not {t u : DateTime} (ht : ¬ FourDigitYear t) (hu : FourDigitYear u) :
    toRfc3339 t < toRfc3339 u := by
  rw [toRfc3339_of_year hu, toRfc3339, if_neg ht, String.lt_iff_toList_lt, String.toList_ofList,
    String.toList_ofList]
  unfold signedText signedDateText signedYear instantText dateText
  rw [digits_succ]
  refine List.cons_lt_cons_iff.2 (Or.inl (lt_of_lt_of_le ?_ (zero_le_digit _)))
  split_ifs <;> decide

theorem toRfc3339_ascii (t : DateTime) : ∀ c ∈ (toRfc3339 t).toList, c.toNat < 128 := by
  have hdigits : ∀ w n, ∀ c ∈ digits w n, c.toNat < 128 := fun w n c hc =>
    Nat.lt_of_le_of_lt (le_nine_of_mem_digits hc) (by decide)
  have hfraction : ∀ n, ∀ c ∈ fractionText n, c.toNat < 128 := by
    intro n
    unfold fractionText
    split_ifs
    · exact List.forall_mem_nil _
    all_goals exact List.forall_mem_cons.2 ⟨by decide, hdigits _ _⟩
  have hclock : ∀ n, ∀ c ∈ clockText n, c.toNat < 128 := by
    unfold clockText timeText
    simp only [List.forall_mem_append, List.forall_mem_cons]
    exact fun n => ⟨⟨hdigits _ _, by decide, hdigits _ _, by decide, hdigits _ _⟩, hfraction _,
      by decide, by decide, by decide, by decide, by decide, by decide, List.forall_mem_nil _⟩
  have hsign : ∀ y : ℤ, (if y < 0 then '-' else '+').toNat < 128 := by
    intro y
    split_ifs <;> decide
  unfold toRfc3339 instantText signedText dateText signedDateText signedYear
  rw [String.toList_ofList]
  split_ifs
  · simp only [List.forall_mem_append, List.forall_mem_cons]
    exact ⟨⟨hdigits _ _, by decide, hdigits _ _, by decide, hdigits _ _⟩, by decide, hclock _⟩
  · simp only [List.forall_mem_append, List.forall_mem_cons]
    exact ⟨⟨⟨hsign _, hdigits _ _⟩, by decide, hdigits _ _, by decide, hdigits _ _⟩, by decide,
      hclock _⟩

/-! ### Time spans of texts -/

/-- The text of a timestamp lies between those of two others. -/
def TextBetween (start stop t : DateTime) : Prop :=
  toRfc3339 start ≤ toRfc3339 t ∧ toRfc3339 t ≤ toRfc3339 stop

instance (start stop t : DateTime) : Decidable (TextBetween start stop t) :=
  inferInstanceAs (Decidable (_ ∧ _))

theorem FourDigitYear.between {start stop t : DateTime} (hstart : FourDigitYear start)
    (hstop : FourDigitYear stop) (h : start ≤ t) (h' : t ≤ stop) : FourDigitYear t :=
  ⟨hstart.1.trans (Int.add_le_add_right h _), lt_of_le_of_lt (Int.add_le_add_right h' _) hstop.2⟩

/-- Within the years 0 to 9999 these are the timestamps between the two. -/
theorem textBetween_iff {start stop : DateTime} (hstart : FourDigitYear start)
    (hstop : FourDigitYear stop) (t : DateTime) :
    TextBetween start stop t ↔ start ≤ t ∧ t ≤ stop := by
  by_cases ht : FourDigitYear t
  · rw [TextBetween, toRfc3339_le_iff hstart ht, toRfc3339_le_iff ht hstop]
  · refine iff_of_false (fun h => ?_) fun h => ht (hstart.between hstop h.1 h.2)
    exact absurd h.1 (not_le.2 (toRfc3339_lt_of_not ht hstart))

end W2uos
