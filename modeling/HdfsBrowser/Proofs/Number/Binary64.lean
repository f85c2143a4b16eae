import HdfsBrowser.Number.Binary64
import Mathlib.Algebra.Order.Field.Power
import Mathlib.Data.Rat.Cast.Order
import Mathlib.Tactic.FieldSimp
import Mathlib.Tactic.Linarith
import Mathlib.Tactic.Positivity
import Mathlib.Tactic.Ring

/-!
# Rounding to binary floating point

A quotient is rounded at the exponent at which its mantissa has 53 bits.  So
rounding never crosses a number of the format, and it goes out of range exactly
from half a unit beyond the greatest value on.
-/

namespace HdfsBrowser

/-! ## Rounding of quotients -/

section RoundDiv

variable {a b k : Nat}

theorem roundDiv_eq (a b : Nat) :
    roundDiv a b = a / b ∨ roundDiv a b = a / b + 1 ∧ b ≤ 2 * (a % b) := by
  unfold roundDiv
  dsimp only
  split
  · exact .inl rfl
  · split
    · exact .inr ⟨rfl, by omega⟩
    · split
      · exact .inl rfl
      · exact .inr ⟨rfl, by omega⟩

theorem le_roundDiv (hb : 0 < b) (h : k * b ≤ a) : k ≤ roundDiv a b := by
  have hquotient : k ≤ a / b := (Nat.le_div_iff_mul_le hb).mpr h
  rcases roundDiv_eq a b with heq | ⟨heq, -⟩ <;> omega

theorem roundDiv_le (hb : 0 < b) (h : a ≤ k * b) : roundDiv a b ≤ k := by
  rcases roundDiv_eq a b with heq | ⟨heq, hrest⟩
  · rw [heq]
    exact Nat.div_le_of_le_mul (by rwa [Nat.mul_comm])
  · have hlt : a / b < k := by
      rw [Nat.div_lt_iff_lt_mul hb]
      apply Nat.lt_of_le_of_ne h
      rintro rfl
      rw [Nat.mul_mod_left] at hrest
      omega
    omega

theorem roundDiv_lt_iff (hb : 0 < b) (hk : k % 2 = 0) :
    roundDiv a b < k ↔ 2 * a + b < 2 * k * b := by
  have hdiv := Nat.div_add_mod a b
  have hmod := Nat.mod_lt a hb
  rcases Nat.lt_or_ge (a / b + 1) k with hlt | hge
  · have hround : roundDiv a b < k := by rcases roundDiv_eq a b with heq | ⟨heq, -⟩ <;> omega
    have hmul : (a / b + 2) * b ≤ k * b := Nat.mul_le_mul_right b hlt
    constructor
    · intro
      nlinarith
    · intro
      exact hround
  · rcases Nat.lt_or_ge (a / b) k with hlt | hge
    · obtain rfl : k = a / b + 1 := by omega
      have hodd : ¬ (a / b) % 2 = 0 := by omega
      have hround : roundDiv a b < a / b + 1 ↔ 2 * (a % b) < b := by
        unfold roundDiv
        simp only [hodd, ite_self, ↓reduceIte]
        split <;> omega
      rw [hround]
      generalize a % b = r at *
      have hexpand : 2 * (a / b + 1) * b = 2 * (b * (a / b)) + 2 * b := by ring
      rw [hexpand]
      omega
    · have hround : k ≤ roundDiv a b := by
        rcases roundDiv_eq a b with heq | ⟨heq, -⟩ <;> omega
      have hmul : k * b ≤ a := (Nat.le_div_iff_mul_le hb).mp hge
      constructor
      · intro
        omega
      · intro
        nlinarith

end RoundDiv

namespace Binary64

/-! ## Quotients on the grid of an exponent -/

theorem twoTo_pos (k : Nat) : 0 < twoTo k := Nat.two_pow_pos k

theorem twoTo_lt_twoTo {j k : Nat} (h : j < k) : twoTo j < twoTo k :=
  Nat.pow_lt_pow_right (by decide) h

theorem twoTo_cast (k : Nat) : (twoTo k : ℚ) = 2 ^ k := by
  change ((2 ^ k : Nat) : ℚ) = 2 ^ k
  push_cast
  rfl

theorem twoTo_div (e : Int) : (twoTo e.toNat : ℚ) / twoTo (-e).toNat = 2 ^ e := by
  rw [twoTo_cast, twoTo_cast]
  rcases Int.le_total 0 e with h | h
  · obtain ⟨k, rfl⟩ := Int.eq_ofNat_of_zero_le h
    simp
  · obtain ⟨k, hk⟩ := Int.eq_ofNat_of_zero_le (Int.neg_nonneg_of_nonpos h)
    obtain rfl : e = -(k : Int) := by omega
    simp

theorem scaled_snd_pos (n : Nat) {d : Nat} (hd : 0 < d) (e : Int) : 0 < (scaled n d e).2 :=
  Nat.mul_pos hd (twoTo_pos _)

theorem scaled_eq (n d : Nat) (e : Int) (hd : 0 < d) :
    ((scaled n d e).1 : ℚ) = n / d / 2 ^ e * (scaled n d e).2 := by
  have htwo : (twoTo e.toNat : ℚ) ≠ 0 := by exact_mod_cast (twoTo_pos _).ne'
  have hnegative : (twoTo (-e).toNat : ℚ) ≠ 0 := by exact_mod_cast (twoTo_pos _).ne'
  simp only [scaled, Nat.cast_mul]
  rw [← twoTo_div e]
  field_simp

section Scaled

variable {n d : Nat} (hd : 0 < d) (e : Int) (k : Nat)
include hd

theorem mul_scaled_le_iff :
    k * (scaled n d e).2 ≤ (scaled n d e).1 ↔ (k * 2 ^ e : ℚ) ≤ n / d := by
  have hpos : (0 : ℚ) < (scaled n d e).2 := by exact_mod_cast scaled_snd_pos n hd e
  rw [← Nat.cast_le (α := ℚ), Nat.cast_mul, scaled_eq n d e hd, mul_le_mul_iff_left₀ hpos,
    le_div_iff₀ (by positivity)]

theorem scaled_le_mul_iff :
    (scaled n d e).1 ≤ k * (scaled n d e).2 ↔ (n / d : ℚ) ≤ k * 2 ^ e := by
  have hpos : (0 : ℚ) < (scaled n d e).2 := by exact_mod_cast scaled_snd_pos n hd e
  rw [← Nat.cast_le (α := ℚ), Nat.cast_mul, scaled_eq n d e hd, mul_le_mul_iff_left₀ hpos,
    div_le_iff₀ (by positivity)]

theorem scaled_lt_half_iff :
    2 * (scaled n d e).1 + (scaled n d e).2 < 2 * k * (scaled n d e).2 ↔
      (n / d : ℚ) < (k - 1 / 2) * 2 ^ e := by
  have hpos : (0 : ℚ) < (scaled n d e).2 := by exact_mod_cast scaled_snd_pos n hd e
  have htwo : (0 : ℚ) < 2 ^ e := by positivity
  rw [← Nat.cast_lt (α := ℚ)]
  push_cast
  rw [scaled_eq n d e hd, ← div_lt_iff₀ htwo]
  generalize (n : ℚ) / d / 2 ^ e = x
  constructor
  · intro h
    nlinarith
  · intro h
    nlinarith

end Scaled

theorem ratio_div (m : Nat) (e : Int) :
    ((ratio m e).1 : ℚ) / (ratio m e).2 = m * 2 ^ e := by
  rw [← twoTo_div e]
  simp only [ratio, Nat.cast_mul]
  ring

/-! ## The exponent of a quotient -/

theorem log2_bounds {n d : Nat} (hn : 0 < n) (hd : 0 < d) {e : Int}
    (he : e = (n.log2 : Int) - (d.log2 : Int) - 53) :
    (2 : ℚ) ^ (e + 52) ≤ n / d ∧ (n / d : ℚ) < 2 ^ (e + 54) := by
  have hd' : (0 : ℚ) < d := by exact_mod_cast hd
  have hpow (k : Nat) : ((2 ^ k : Nat) : ℚ) = 2 ^ (k : Int) := by
    rw [zpow_natCast]
    push_cast
    rfl
  constructor
  · have hnlog : ((2 ^ n.log2 : Nat) : ℚ) ≤ n := by exact_mod_cast Nat.log2_self_le hn.ne'
    have hdlog : (d : ℚ) ≤ ((2 ^ (d.log2 + 1) : Nat) : ℚ) := by
      exact_mod_cast Nat.lt_log2_self.le
    rw [le_div_iff₀ hd']
    calc (2 : ℚ) ^ (e + 52) * d ≤ 2 ^ (e + 52) * ((2 ^ (d.log2 + 1) : Nat) : ℚ) := by gcongr
      _ = ((2 ^ n.log2 : Nat) : ℚ) := by
          rw [hpow, hpow, ← zpow_add₀ (by norm_num)]
          congr 1
          push_cast
          omega
      _ ≤ n := hnlog
  · have hnlog : (n : ℚ) < ((2 ^ (n.log2 + 1) : Nat) : ℚ) := by exact_mod_cast Nat.lt_log2_self
    have hdlog : ((2 ^ d.log2 : Nat) : ℚ) ≤ d := by exact_mod_cast Nat.log2_self_le hd.ne'
    rw [div_lt_iff₀ hd']
    calc (n : ℚ) < ((2 ^ (n.log2 + 1) : Nat) : ℚ) := hnlog
      _ = 2 ^ (e + 54) * ((2 ^ d.log2 : Nat) : ℚ) := by
          rw [hpow, hpow, ← zpow_add₀ (by norm_num)]
          congr 1
          push_cast
          omega
      _ ≤ 2 ^ (e + 54) * d := by gcongr

/-- At its exponent a quotient has a mantissa of no more than 53 bits, and of no fewer unless the
exponent is the least. -/
structure Spans (x : ℚ) (e : Int) : Prop where
  lt : x < 2 ^ (e + 53)
  least_le : minExponent ≤ e
  le : minExponent < e → 2 ^ (e + 52) ≤ x

theorem spans_exponentFor {n d : Nat} (hn : 0 < n) (hd : 0 < d) :
    Spans (n / d) (exponentFor n d) := by
  obtain ⟨hlow, hhigh⟩ := log2_bounds hn hd rfl
  unfold exponentFor
  generalize (n.log2 : Int) - (d.log2 : Int) - 53 = e at *
  -- the logarithms leave two exponents open, and the test decides between them
  have htest : 2 * leastNormal ≤ (scaled n d e).1 / (scaled n d e).2 ↔
      (2 : ℚ) ^ (e + 53) ≤ n / d := by
    have hpow : ((2 * leastNormal : Nat) : ℚ) * 2 ^ e = 2 ^ (e + 53) := by
      rw [zpow_add₀ (by norm_num), leastNormal, Nat.cast_mul, twoTo_cast]
      norm_num
      ring
    rw [Nat.le_div_iff_mul_le (scaled_snd_pos n hd e), mul_scaled_le_iff hd, hpow]
  have hexact : ∃ e',
      (if 2 * leastNormal ≤ (scaled n d e).1 / (scaled n d e).2 then e + 1 else e) = e' ∧
        (n / d : ℚ) < 2 ^ (e' + 53) ∧ 2 ^ (e' + 52) ≤ (n / d : ℚ) := by
    split
    · next h =>
        refine ⟨e + 1, rfl, ?_, ?_⟩
        · rwa [add_assoc]
        · rw [add_assoc]
          exact htest.mp h
    · next h => exact ⟨e, rfl, lt_of_not_ge (mt htest.mpr h), hlow⟩
  obtain ⟨e', he', hlt, hle⟩ := hexact
  change Spans _ (max minExponent (if 2 * leastNormal ≤ (scaled n d e).1 / (scaled n d e).2
    then e + 1 else e))
  rw [he']
  refine ⟨hlt.trans_le (zpow_le_zpow_right₀ (by norm_num) (by omega)), by omega, fun h => ?_⟩
  rwa [max_eq_right (by omega)]

/-! ## The nearest value -/

def nearest (n d : Nat) : ℚ :=
  roundDiv (scaled n d (exponentFor n d)).1 (scaled n d (exponentFor n d)).2 *
    2 ^ exponentFor n d

section Nearest

variable {n d : Nat}

theorem ofRatio_eq (negative : Bool) (hn : n ≠ 0) {e : Int} (he : exponentFor n d = e) :
    ofRatio negative n d =
      if roundDiv (scaled n d e).1 (scaled n d e).2 = 2 * leastNormal then
        if maxExponent < e + 1 then .infinite negative else .finite negative leastNormal (e + 1)
      else if maxExponent < e then .infinite negative
      else .finite negative (roundDiv (scaled n d e).1 (scaled n d e).2) e := by
  unfold ofRatio
  simp only [hn, he, ↓reduceIte]
  split <;> rfl

theorem two_mul_leastNormal : ((2 * leastNormal : Nat) : ℚ) = 2 ^ 53 := by
  rw [leastNormal, Nat.cast_mul, twoTo_cast]
  norm_num

def overflow : Nat := twoTo 1024 - twoTo 970

theorem overflow_eq :
    (overflow : ℚ) = (((2 * leastNormal : Nat) : ℚ) - 1 / 2) * 2 ^ maxExponent := by
  have hle : twoTo 970 ≤ twoTo 1024 := (twoTo_lt_twoTo (by decide)).le
  have hpower : (2 : ℚ) ^ 1024 = 2 ^ 53 * 2 ^ 971 := by rw [← pow_add]
  have hhalf : (2 : ℚ) ^ 971 = 2 * 2 ^ 970 := by rw [← pow_succ']
  rw [overflow, Nat.cast_sub hle, twoTo_cast, twoTo_cast, two_mul_leastNormal, maxExponent,
    zpow_ofNat, hpower, hhalf]
  generalize (2 : ℚ) ^ 970 = half
  ring

theorem overflow_lt : (overflow : ℚ) < 2 ^ (maxExponent + 53) := by
  rw [overflow_eq, zpow_add₀ (by norm_num), two_mul_leastNormal]
  have hpos : (0 : ℚ) < 2 ^ maxExponent := by positivity
  norm_num
  linarith

theorem lt_overflow : (2 : ℚ) ^ (maxExponent + 52) < overflow := by
  rw [overflow_eq, zpow_add₀ (by norm_num), two_mul_leastNormal]
  have hpos : (0 : ℚ) < 2 ^ maxExponent := by positivity
  norm_num
  linarith

theorem roundDiv_lt_iff_of_exponent (hd : 0 < d) :
    roundDiv (scaled n d maxExponent).1 (scaled n d maxExponent).2 < 2 * leastNormal ↔
      (n / d : ℚ) < overflow := by
  rw [roundDiv_lt_iff (scaled_snd_pos n hd _) (by decide), scaled_lt_half_iff hd, overflow_eq]

theorem ofRatio_of_lt (negative : Bool) (hn : 0 < n) (hd : 0 < d)
    (h : (n / d : ℚ) < overflow) :
    ∃ m e, ofRatio negative n d = .finite negative m e ∧ (m * 2 ^ e : ℚ) = nearest n d := by
  have hspans := spans_exponentFor hn hd
  unfold nearest
  generalize he : exponentFor n d = e at *
  have hle : e ≤ maxExponent := by
    by_contra hgt
    have hpower : (2 : ℚ) ^ (maxExponent + 53) ≤ 2 ^ (e + 52) :=
      zpow_le_zpow_right₀ (by norm_num) (by omega)
    have hle := hspans.le (by unfold minExponent maxExponent at *; omega)
    exact absurd (h.trans overflow_lt) (hpower.trans hle).not_gt
  rw [ofRatio_eq negative hn.ne' he]
  by_cases hcarry : roundDiv (scaled n d e).1 (scaled n d e).2 = 2 * leastNormal
  · have hlt : e < maxExponent := by
      apply lt_of_le_of_ne hle
      rintro rfl
      exact absurd hcarry ((roundDiv_lt_iff_of_exponent hd).mpr h).ne
    refine ⟨leastNormal, e + 1, ?_, ?_⟩
    · rw [if_pos hcarry, if_neg (by omega)]
    · rw [hcarry, zpow_add_one₀ (by norm_num)]
      push_cast
      ring
  · exact ⟨_, e, by rw [if_neg hcarry, if_neg (by omega)], rfl⟩

theorem ofRatio_of_le (negative : Bool) (hn : 0 < n) (hd : 0 < d)
    (h : (overflow : ℚ) ≤ n / d) : ofRatio negative n d = .infinite negative := by
  have hspans := spans_exponentFor hn hd
  generalize he : exponentFor n d = e at *
  have hle : maxExponent ≤ e := by
    by_contra hlt
    have hpower : (2 : ℚ) ^ (e + 53) ≤ 2 ^ (maxExponent + 52) :=
      zpow_le_zpow_right₀ (by norm_num) (by omega)
    exact absurd (hspans.lt.trans_le hpower) (lt_overflow.le.trans h).not_gt
  rw [ofRatio_eq negative hn.ne' he]
  split
  · exact if_pos (by omega)
  · next hcarry =>
      apply if_pos
      apply lt_of_le_of_ne hle
      rintro rfl
      have hceil : roundDiv (scaled n d maxExponent).1 (scaled n d maxExponent).2 ≤
          2 * leastNormal := by
        apply roundDiv_le (scaled_snd_pos n hd _)
        rw [scaled_le_mul_iff hd, two_mul_leastNormal, ← zpow_natCast,
          ← zpow_add₀ (by norm_num)]
        exact hspans.lt.le.trans (le_of_eq (by congr 1))
      exact absurd ((roundDiv_lt_iff_of_exponent hd).mp (lt_of_le_of_ne hceil hcarry)) h.not_gt

theorem mul_zpow_eq {e g : Int} (h : e ≤ g) (c : Nat) :
    (c * 2 ^ g : ℚ) = ((c * 2 ^ (g - e).toNat : Nat) : ℚ) * 2 ^ e := by
  push_cast
  rw [← zpow_natCast, mul_assoc, ← zpow_add₀ (by norm_num)]
  congr 2
  omega

theorem mul_zpow_lt {e g : Int} (h : g < e) {c : Nat} (hc : c < 2 * leastNormal) :
    (c * 2 ^ g : ℚ) < 2 ^ (e + 52) := by
  have hc' : (c : ℚ) < 2 ^ (53 : Int) := by
    rw [zpow_ofNat, ← two_mul_leastNormal]
    exact_mod_cast hc
  calc (c * 2 ^ g : ℚ) < 2 ^ (53 : Int) * 2 ^ g := by gcongr
    _ = 2 ^ (53 + g) := by rw [← zpow_add₀ (by norm_num)]
    _ ≤ 2 ^ (e + 52) := zpow_le_zpow_right₀ (by norm_num) (by omega)

variable (hn : 0 < n) (hd : 0 < d) {c : Nat} {g : Int} (hc : c < 2 * leastNormal)
  (hg : minExponent ≤ g)
include hn hd hc hg

/-- Rounding does not cross a number of the format. -/
theorem le_nearest (h : (c * 2 ^ g : ℚ) ≤ n / d) : (c * 2 ^ g : ℚ) ≤ nearest n d := by
  have hspans := spans_exponentFor hn hd
  unfold nearest
  generalize exponentFor n d = e at *
  rcases le_or_gt e g with hle | hgt
  · rw [mul_zpow_eq hle] at *
    have hround := le_roundDiv (scaled_snd_pos n hd e) ((mul_scaled_le_iff hd e _).mpr h)
    gcongr
  · have hpower : (leastNormal * 2 ^ e : ℚ) = 2 ^ (e + 52) := by
      rw [leastNormal, twoTo_cast, zpow_add₀ (by norm_num), mul_comm]
      rfl
    have hlow : (leastNormal * 2 ^ e : ℚ) ≤ n / d := by
      rw [hpower]
      exact hspans.le (by omega)
    have hround := le_roundDiv (scaled_snd_pos n hd e) ((mul_scaled_le_iff hd e _).mpr hlow)
    calc (c * 2 ^ g : ℚ) ≤ leastNormal * 2 ^ e := hpower ▸ (mul_zpow_lt hgt hc).le
      _ ≤ _ := by gcongr

theorem nearest_le (h : (n / d : ℚ) ≤ c * 2 ^ g) : nearest n d ≤ (c * 2 ^ g : ℚ) := by
  have hspans := spans_exponentFor hn hd
  unfold nearest
  generalize exponentFor n d = e at *
  rcases le_or_gt e g with hle | hgt
  · rw [mul_zpow_eq hle] at *
    have hround := roundDiv_le (scaled_snd_pos n hd e) ((scaled_le_mul_iff hd e _).mpr h)
    gcongr
  · have hlow : (2 : ℚ) ^ (e + 52) ≤ n / d := hspans.le (by omega)
    exact absurd (hlow.trans h) (mul_zpow_lt hgt hc).not_ge

end Nearest

theorem isFinite_ofInt_iff (n : Int) : (ofInt n).isFinite = true ↔ n.natAbs < overflow := by
  unfold ofInt
  rcases Nat.eq_zero_or_pos n.natAbs with hzero | hpos
  · have hoverflow : 0 < overflow := Nat.sub_pos_of_lt (twoTo_lt_twoTo (by decide))
    rw [hzero]
    exact iff_of_true rfl hoverflow
  · have hcast : n.natAbs < overflow ↔ (n.natAbs / (1 : Nat) : ℚ) < overflow := by
      rw [← Nat.cast_lt (α := ℚ), Nat.cast_one, div_one]
    rw [hcast]
    by_cases h : (n.natAbs / (1 : Nat) : ℚ) < overflow
    · obtain ⟨m, e, hfinite, -⟩ := ofRatio_of_lt (decide (n < 0)) hpos Nat.one_pos h
      rw [hfinite]
      exact iff_of_true rfl h
    · rw [ofRatio_of_le (decide (n < 0)) hpos Nat.one_pos (not_lt.mp h)]
      exact iff_of_false Bool.false_ne_true h

/-! ## Integer parts -/

theorem ratio_snd_pos (m : Nat) (e : Int) : 0 < (ratio m e).2 := twoTo_pos _

theorem floor?_finite (negative : Bool) (m : Nat) (e : Int) :
    (finite negative m e).floor? =
      some (if negative then -((ratio m e).1 : Int) / ((ratio m e).2 : Int)
        else ((ratio m e).1 / (ratio m e).2 : Nat)) := rfl

theorem floor_lt_iff (m : Nat) (e : Int) (k : Nat) :
    (((ratio m e).1 / (ratio m e).2 : Nat) : Int) < k ↔ (m * 2 ^ e : ℚ) < k := by
  have hpos : (0 : ℚ) < (ratio m e).2 := by exact_mod_cast ratio_snd_pos m e
  rw [← ratio_div, div_lt_iff₀ hpos, Int.ofNat_lt, Nat.div_lt_iff_lt_mul (ratio_snd_pos m e)]
  exact_mod_cast Iff.rfl

theorem le_floor_neg_iff (m : Nat) (e : Int) (k : Nat) :
    -(k : Int) ≤ -((ratio m e).1 : Int) / ((ratio m e).2 : Int) ↔ (m * 2 ^ e : ℚ) ≤ k := by
  have hpos : (0 : ℚ) < (ratio m e).2 := by exact_mod_cast ratio_snd_pos m e
  rw [← ratio_div, div_le_iff₀ hpos,
    Int.le_ediv_iff_mul_le (by exact_mod_cast ratio_snd_pos m e), Int.neg_mul, Int.neg_le_neg_iff]
  exact_mod_cast Iff.rfl
theorem floor_neg_nonpos (m : Nat) (e : Int) :
    -((ratio m e).1 : Int) / ((ratio m e).2 : Int) ≤ 0 := by
  apply Int.ediv_le_of_le_mul (by exact_mod_cast ratio_snd_pos m e)
  omega

end Binary64

end HdfsBrowser
