import HdfsBrowser.Number.Timestamp
import HdfsBrowser.Proofs.Number.Binary64

/-!
# Which times are shown

The calendar counts the years of an era from March on, so that the two months
that end such a year belong to the next.  Its years from 1 to 9999 are the
times that are shown: the seconds are rounded on the way, but never across the
start of a year.
-/

namespace HdfsBrowser.Timestamp

/-! ## Years -/

def yearOfEra (dayOfEra : Nat) : Nat :=
  (dayOfEra - dayOfEra / 1460 + dayOfEra / 36524 - dayOfEra / 146096) / 365

def dayOfYear (dayOfEra : Nat) : Nat :=
  dayOfEra - (365 * yearOfEra dayOfEra + yearOfEra dayOfEra / 4 - yearOfEra dayOfEra / 100)

def monthOf (dayOfYear : Nat) : Nat :=
  let shifted := (5 * dayOfYear + 2) / 153
  if shifted < 10 then shifted + 3 else shifted - 9

theorem yearOfEra_cases {dayOfEra : Nat} (h : dayOfEra < 146097) :
    yearOfEra dayOfEra = 0 ∧ dayOfEra < 365 ∨
      (0 < yearOfEra dayOfEra ∧ yearOfEra dayOfEra < 399) ∧
        365 ≤ dayOfEra ∧ dayOfEra < 145731 ∨
      yearOfEra dayOfEra = 399 ∧ 145731 ≤ dayOfEra := by
  unfold yearOfEra
  omega

theorem monthOf_le_two_iff {dayOfYear : Nat} (h : dayOfYear ≤ 365) :
    monthOf dayOfYear ≤ 2 ↔ 306 ≤ dayOfYear := by
  unfold monthOf
  dsimp only
  split <;> omega

theorem dateOf_year (day : Int) :
    ∃ (era : Int) (dayOfEra : Nat), dayOfEra < 146097 ∧ day + 719468 = 146097 * era + dayOfEra ∧
      (dateOf day).year = (yearOfEra dayOfEra : Int) + era * 400 +
        if monthOf (dayOfYear dayOfEra) ≤ 2 then 1 else 0 := by
  refine ⟨Int.fdiv (day + 719468) 146097, (Int.fmod (day + 719468) 146097).toNat, ?_, ?_, ?_⟩
  · rw [Int.fmod_eq_emod_of_nonneg _ (by decide)]
    omega
  · rw [Int.fmod_eq_emod_of_nonneg _ (by decide), Int.fdiv_eq_ediv_of_nonneg _ (by decide)]
    omega
  · generalize hday : (Int.fmod (day + 719468) 146097).toNat = dayOfEra
    have hyear : (dateOf day).year =
        if monthOf (dayOfYear dayOfEra) ≤ 2 then
          (yearOfEra dayOfEra : Int) + Int.fdiv (day + 719468) 146097 * 400 + 1
        else (yearOfEra dayOfEra : Int) + Int.fdiv (day + 719468) 146097 * 400 := by
      rw [← hday]
      rfl
    rw [hyear]
    split <;> simp

theorem dateOf_year_bounds (day : Int) :
    (1 ≤ (dateOf day).year ↔ -719162 ≤ day) ∧ ((dateOf day).year ≤ 9999 ↔ day < 2932897) := by
  obtain ⟨era, dayOfEra, hera, hday, hyear⟩ := dateOf_year day
  rw [hyear]
  -- only the first and the last year of an era can hold a bound
  rcases yearOfEra_cases hera with ⟨hfirst, hlt⟩ | ⟨hwithin, hrange⟩ | ⟨hlast, hle⟩
  · have hmonth : monthOf (dayOfYear dayOfEra) ≤ 2 ↔ 306 ≤ dayOfEra := by
      rw [dayOfYear, hfirst]
      exact monthOf_le_two_iff (by omega)
    simp only [hmonth, hfirst]
    split <;> omega
  · split <;> omega
  · have hmonth : monthOf (dayOfYear dayOfEra) ≤ 2 ↔ 146037 ≤ dayOfEra := by
      rw [dayOfYear, hlast, monthOf_le_two_iff (by omega)]
      omega
    simp only [hmonth, hlast]
    split <;> omega

theorem exists_ofSeconds_iff (seconds : Int) :
    (∃ text, ofSeconds seconds = .ok text) ↔
      -62135596800 ≤ seconds ∧ seconds < 253402300800 := by
  obtain ⟨hfirst, hlast⟩ := dateOf_year_bounds (seconds.fdiv 86400)
  have hday : (-719162 ≤ seconds.fdiv 86400 ↔ -62135596800 ≤ seconds) ∧
      (seconds.fdiv 86400 < 2932897 ↔ seconds < 253402300800) := by
    rw [Int.fdiv_eq_ediv_of_nonneg _ (by decide)]
    omega
  have htwo : twoTo 31 = 2147483648 := rfl
  rw [← hday.1, ← hday.2, ← hfirst, ← hlast]
  unfold ofSeconds
  dsimp only
  rw [htwo]
  split
  · simp only [reduceCtorEq, exists_false, false_iff]
    omega
  · split
    · simp only [reduceCtorEq, exists_false, false_iff]
      omega
    · simp only [Except.ok.injEq, exists_eq', true_iff]
      omega

/-! ## Milliseconds -/

section Nearest

variable {n : Nat} (hn : 0 < n)
include hn

theorem le_nearest {c : Nat} (hc : c < 2 * Binary64.leastNormal) (h : 1000 * c ≤ 1024 * n) :
    (c / 1024 : ℚ) ≤ Binary64.nearest n 1000 := by
  have hpower : (c / 1024 : ℚ) = c * 2 ^ (-10 : Int) := by norm_num [div_eq_mul_inv]
  have h' : (1000 * c : ℚ) ≤ 1024 * n := by exact_mod_cast h
  rw [hpower]
  apply Binary64.le_nearest hn (by decide) hc (by decide)
  rw [← hpower, div_le_div_iff₀ (by norm_num) (by norm_num)]
  push_cast
  linarith

theorem nearest_le {c : Nat} (hc : c < 2 * Binary64.leastNormal) (h : 1024 * n ≤ 1000 * c) :
    Binary64.nearest n 1000 ≤ (c / 1024 : ℚ) := by
  have hpower : (c / 1024 : ℚ) = c * 2 ^ (-10 : Int) := by norm_num [div_eq_mul_inv]
  have h' : (1024 * n : ℚ) ≤ 1000 * c := by exact_mod_cast h
  rw [hpower]
  apply Binary64.nearest_le hn (by decide) hc (by decide)
  rw [← hpower, div_le_div_iff₀ (by norm_num) (by norm_num)]
  push_cast
  linarith

variable {k : Nat} (hk : 1024 * k + 1 < 2 * Binary64.leastNormal)
include hk

/-- Between a whole second and the next millisecond lies a number of 1024ths, which rounding does
not cross. -/
theorem nearest_lt_iff : Binary64.nearest n 1000 < k ↔ n < 1000 * k := by
  constructor
  · intro h
    by_contra hle
    have hnearest := le_nearest hn (c := 1024 * k) (by omega) (by omega)
    push_cast at hnearest
    linarith
  · intro h
    have hnearest := nearest_le hn (c := 1024 * k - 1) (by omega) (by omega)
    rw [Nat.cast_sub (by omega)] at hnearest
    push_cast at hnearest
    linarith

theorem nearest_le_iff : Binary64.nearest n 1000 ≤ k ↔ n ≤ 1000 * k := by
  constructor
  · intro h
    by_contra hlt
    have hnearest := le_nearest hn (c := 1024 * k + 1) hk (by omega)
    push_cast at hnearest
    linarith
  · intro h
    have hnearest := nearest_le hn (c := 1024 * k) (by omega) (by omega)
    push_cast at hnearest
    linarith

end Nearest

theorem exists_text_of_floor {milliseconds seconds : Int} (hne : milliseconds ≠ 0)
    (hfloor : (Binary64.ofRatio (milliseconds < 0) milliseconds.natAbs 1000).floor? =
      some seconds) :
    (∃ t, text milliseconds = .ok t) ↔ -62135596800 ≤ seconds ∧ seconds < 253402300800 := by
  have htwo : twoTo 63 = 9223372036854775808 := rfl
  unfold text
  simp only [hne, hfloor, htwo, ↓reduceIte]
  split
  · simp only [reduceCtorEq, exists_false, false_iff]
    omega
  · exact exists_ofSeconds_iff seconds

theorem exists_text_iff (milliseconds : Int) :
    (∃ t, text milliseconds = .ok t) ↔
      -62135596800000 ≤ milliseconds ∧ milliseconds < 253402300800000 := by
  by_cases hzero : milliseconds = 0
  · subst hzero
    exact iff_of_true ⟨"-", rfl⟩ (by decide)
  have hn : 0 < milliseconds.natAbs := Int.natAbs_pos.mpr hzero
  by_cases hrange : (milliseconds.natAbs / (1000 : Nat) : ℚ) < Binary64.overflow
  · obtain ⟨m, e, hfinite, hvalue⟩ :=
      Binary64.ofRatio_of_lt (decide (milliseconds < 0)) hn (by decide) hrange
    have hfloor := Binary64.floor?_finite (decide (milliseconds < 0)) m e
    rw [← hfinite] at hfloor
    rw [exists_text_of_floor hzero hfloor]
    by_cases hnegative : milliseconds < 0
    · simp only [hnegative, decide_true, ↓reduceIte]
      have hfirst := Binary64.le_floor_neg_iff m e 62135596800
      rw [hvalue, nearest_le_iff hn (by decide)] at hfirst
      have hnonpos := Binary64.floor_neg_nonpos m e
      omega
    · simp only [hnegative, decide_false, Bool.false_eq_true, ↓reduceIte]
      have hlast := Binary64.floor_lt_iff m e 253402300800
      rw [hvalue, nearest_lt_iff hn (by decide)] at hlast
      have hnonneg := Int.natCast_nonneg ((Binary64.ratio m e).1 / (Binary64.ratio m e).2)
      omega
  · have hlarge : 253402300800 ≤ Binary64.overflow := by decide +kernel
    have hle : Binary64.overflow * 1000 ≤ milliseconds.natAbs := by
      rw [not_lt, le_div_iff₀ (by norm_num)] at hrange
      exact_mod_cast hrange
    unfold text
    rw [if_neg hzero, Binary64.ofRatio_of_le _ hn (by decide) (not_lt.mp hrange)]
    simp only [Binary64.floor?, reduceCtorEq, exists_false, false_iff]
    omega

end HdfsBrowser.Timestamp
