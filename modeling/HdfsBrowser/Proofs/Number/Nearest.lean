import HdfsBrowser.Proofs.Number.Binary64

/-!
# The numbers of the format

A number of the format has a full mantissa or the least exponent.  Rounding
gives such numbers only, and it gives the one whose neighbourhood a quotient
lies in: half a unit on each side, a quarter of a unit below a power of two,
and the ends themselves when the mantissa is even.
-/

namespace HdfsBrowser

theorem roundDiv_eq_of_close {a b m : Nat} (hb : 0 < b) (hlow : 2 * (m * b) ≤ 2 * a + b)
    (hhigh : 2 * a ≤ 2 * (m * b) + b)
    (htie : 2 * (m * b) = 2 * a + b ∨ 2 * a = 2 * (m * b) + b → m % 2 = 0) :
    roundDiv a b = m := by
  have hdiv := Nat.div_add_mod a b
  have hmod := Nat.mod_lt a hb
  have hle : a / b ≤ m := by
    by_contra hgt
    have hmul : (m + 1) * b ≤ a / b * b := Nat.mul_le_mul_right b (by omega)
    rw [Nat.add_mul, Nat.mul_comm (a / b)] at hmul
    omega
  have hge : m ≤ a / b + 1 := by
    by_contra hgt
    have hmul : (a / b + 2) * b ≤ m * b := Nat.mul_le_mul_right b (by omega)
    rw [Nat.add_mul, Nat.mul_comm (a / b)] at hmul
    omega
  unfold roundDiv
  dsimp only
  rcases (show m = a / b ∨ m = a / b + 1 by omega) with heq | heq
  · have hproduct : m * b = b * (a / b) := by rw [heq, Nat.mul_comm]
    rw [hproduct] at hlow hhigh htie
    split
    · omega
    · split
      · omega
      · split <;> omega
  · have hproduct : m * b = b * (a / b) + b := by rw [heq, Nat.add_mul, Nat.mul_comm, Nat.one_mul]
    rw [hproduct] at hlow hhigh htie
    split
    · omega
    · split
      · omega
      · split <;> omega

namespace Binary64

/-! ## Mantissas and exponents -/

theorem regular_zero : Regular 0 minExponent :=
  ⟨by decide, le_refl _, by decide, fun h => absurd h (lt_irrefl _)⟩

theorem Regular.lt_two_pow {m : Nat} {e : Int} (h : Regular m e) : (m : ℚ) + 1 ≤ 2 ^ 53 := by
  rw [← two_mul_leastNormal]
  exact_mod_cast h.lt

theorem Spans.unique {x : ℚ} {e e' : Int} (h : Spans x e) (h' : Spans x e') : e = e' := by
  have hle {e e' : Int} (h : Spans x e) (h' : Spans x e') : e ≤ e' := by
    by_contra hgt
    have hpower : (2 : ℚ) ^ (e' + 53) ≤ 2 ^ (e + 52) :=
      zpow_le_zpow_right₀ (by norm_num) (by omega)
    have hfull := h.le (lt_of_le_of_lt h'.least_le (by omega))
    exact absurd (hpower.trans hfull) h'.lt.not_ge
  exact le_antisymm (hle h h') (hle h' h)

theorem leastNormal_mul_zpow (e : Int) : (leastNormal * 2 ^ e : ℚ) = 2 ^ (e + 52) := by
  rw [leastNormal, twoTo_cast, zpow_add₀ (by norm_num), mul_comm]
  rfl

theorem regular_roundDiv {n d : Nat} (hn : 0 < n) (hd : 0 < d) {e : Int}
    (he : exponentFor n d = e) (hle : e ≤ maxExponent)
    (hlt : roundDiv (scaled n d e).1 (scaled n d e).2 ≠ 2 * leastNormal) :
    Regular (roundDiv (scaled n d e).1 (scaled n d e).2) e := by
  have hspans := spans_exponentFor hn hd
  rw [he] at hspans
  have hpos := scaled_snd_pos n hd e
  refine ⟨lt_of_le_of_ne ?_ hlt, hspans.least_le, hle, fun hleast => ?_⟩
  · apply roundDiv_le hpos
    rw [scaled_le_mul_iff hd, two_mul_leastNormal, ← zpow_natCast, ← zpow_add₀ (by norm_num)]
    exact hspans.lt.le.trans (le_of_eq (by congr 1; push_cast; ring))
  · apply le_roundDiv hpos
    rw [mul_scaled_le_iff hd, leastNormal_mul_zpow]
    exact hspans.le hleast

theorem isRegular_ofRatio (negative : Bool) (n : Nat) {d : Nat} (hd : 0 < d) :
    (ofRatio negative n d).IsRegular := by
  rcases Nat.eq_zero_or_pos n with rfl | hn
  · exact regular_zero
  · generalize he : exponentFor n d = e
    have hspans := spans_exponentFor hn hd
    rw [he] at hspans
    have hleast := hspans.least_le
    rw [ofRatio_eq negative hn.ne' he]
    split
    · split
      · trivial
      · next hle => exact ⟨by decide, by omega, by omega, fun _ => le_refl _⟩
    · next hlt =>
        split
        · trivial
        · next hle => exact regular_roundDiv hn hd he (by omega) hlt

theorem isRegular_ofInt (n : Int) : (ofInt n).IsRegular :=
  isRegular_ofRatio _ _ Nat.one_pos

theorem tenTo_pos (k : Nat) : 0 < tenTo k := Nat.pow_pos (by decide)

theorem isRegular_ofDecimal (negative : Bool) (n : Nat) (e : Int) :
    (ofDecimal negative n e).IsRegular := by
  unfold ofDecimal
  dsimp only
  split
  · exact regular_zero
  · split
    · trivial
    · split
      · exact regular_zero
      · exact isRegular_ofRatio _ _ (tenTo_pos _)

/-! ## The neighbourhood of a number -/

/-- How far the neighbourhood of a number reaches down, in units of its mantissa. -/
def reach (m : Nat) (e : Int) : ℚ := if m = leastNormal ∧ minExponent < e then 1 / 4 else 1 / 2

/-- Nearer to the number than to any other, or half way with the number the even one. -/
structure Near (m : Nat) (e : Int) (x : ℚ) : Prop where
  above : (m - reach m e) * 2 ^ e < x ∨ m % 2 = 0 ∧ (m - reach m e) * 2 ^ e = x
  below : x < (m + 1 / 2) * 2 ^ e ∨ m % 2 = 0 ∧ x = (m + 1 / 2) * 2 ^ e

section

variable {m : Nat} {e : Int} {x : ℚ}

theorem reach_le (m : Nat) (e : Int) : reach m e ≤ 1 / 2 := by
  unfold reach
  split <;> norm_num

theorem Near.ge (h : Near m e x) : (m - reach m e) * 2 ^ e ≤ x :=
  h.above.elim le_of_lt fun h => h.2.le

theorem Near.le (h : Near m e x) : x ≤ (m + 1 / 2) * 2 ^ e :=
  h.below.elim le_of_lt fun h => h.2.le

theorem Near.pos (h : Near m e x) (hm : 0 < m) : 0 < x := by
  have hm' : (1 : ℚ) ≤ m := by exact_mod_cast hm
  have hreach := reach_le m e
  have hpower : (0 : ℚ) < 2 ^ e := by positivity
  refine lt_of_lt_of_le ?_ h.ge
  have hfactor : (0 : ℚ) < m - reach m e := by linarith
  positivity

theorem Near.eq_leastNormal (h : Near m e x) (hregular : Regular m e) (hleast : minExponent < e)
    (hbelow : x < 2 ^ (e + 52)) : m = leastNormal := by
  have hpower : (0 : ℚ) < 2 ^ e := by positivity
  have hge := h.ge.trans_lt hbelow
  rw [← leastNormal_mul_zpow, mul_lt_mul_iff_left₀ hpower] at hge
  have hreach := reach_le m e
  have hlt : (m : ℚ) < leastNormal + 1 := by linarith
  have hle : m ≤ leastNormal := Nat.lt_succ_iff.mp (by exact_mod_cast hlt)
  exact le_antisymm hle (hregular.full hleast)

theorem zpow_eq_two_mul (e : Int) : (2 : ℚ) ^ e = 2 * 2 ^ (e - 1) := by
  rw [zpow_sub_one₀ (by norm_num)]
  ring

theorem Near.spans_finer (h : Near leastNormal e x) (hleast : minExponent < e)
    (hbelow : x < 2 ^ (e + 52)) : Spans x (e - 1) := by
  refine ⟨by rwa [show e - 1 + 53 = e + 52 by omega], by omega, fun _ => le_trans ?_ h.ge⟩
  have hreach := reach_le leastNormal e
  have hlarge : (1 : ℚ) ≤ leastNormal := by exact_mod_cast (by decide : 1 ≤ leastNormal)
  have hpower : (0 : ℚ) < 2 ^ (e - 1) := by positivity
  rw [← leastNormal_mul_zpow, zpow_eq_two_mul e]
  nlinarith

theorem Near.finer (h : Near leastNormal e x) (hleast : minExponent < e)
    (hbelow : x < 2 ^ (e + 52)) : Near (2 * leastNormal) (e - 1) x := by
  have hquarter : reach leastNormal e = 1 / 4 := if_pos ⟨rfl, hleast⟩
  have hhalf : reach (2 * leastNormal) (e - 1) = 1 / 2 := if_neg fun h => absurd h.1 (by decide)
  have hpower : (0 : ℚ) < 2 ^ (e - 1) := by positivity
  have hge := h.ge
  rw [hquarter, zpow_eq_two_mul e] at hge
  rw [← leastNormal_mul_zpow, zpow_eq_two_mul e] at hbelow
  refine ⟨?_, .inl ?_⟩
  · rw [hhalf]
    push_cast
    rcases hge.lt_or_eq with hgt | heq
    · left
      linarith
    · right
      exact ⟨by decide, by linarith⟩
  · push_cast
    linarith

theorem Near.lt_two_zpow (h : Near m e x) (hregular : Regular m e) : x < 2 ^ (e + 53) := by
  have hm := hregular.lt_two_pow
  have hpower : (0 : ℚ) < 2 ^ e := by positivity
  calc x ≤ (m + 1 / 2) * 2 ^ e := h.le
    _ < 2 ^ 53 * 2 ^ e := by
        rw [mul_lt_mul_iff_left₀ hpower]
        linarith
    _ = 2 ^ (e + 53) := by
        rw [zpow_add₀ (by norm_num), mul_comm]
        rfl

variable {n d : Nat} (hd : 0 < d)
include hd

theorem roundDiv_of_near (h : Near m e (n / d)) :
    roundDiv (scaled n d e).1 (scaled n d e).2 = m := by
  have hpos := scaled_snd_pos n hd e
  have hpos' : (0 : ℚ) < (scaled n d e).2 := by exact_mod_cast hpos
  have hpower : (0 : ℚ) < 2 ^ e := by positivity
  have hscaled := scaled_eq n d e hd
  have hreach := reach_le m e
  generalize (scaled n d e).1 = a, (scaled n d e).2 = b at *
  obtain ⟨y, hy⟩ : ∃ y : ℚ, (n / d : ℚ) = y * 2 ^ e := ⟨n / d / 2 ^ e, by field_simp⟩
  rw [hy, mul_div_assoc, div_self hpower.ne', mul_one] at hscaled
  have hlow : (m : ℚ) - 1 / 2 ≤ y := by
    have hge := h.ge
    rw [hy, mul_le_mul_iff_left₀ hpower] at hge
    linarith
  have hhigh : y ≤ m + 1 / 2 := by
    have hle := h.le
    rwa [hy, mul_le_mul_iff_left₀ hpower] at hle
  apply roundDiv_eq_of_close hpos
  · rw [← Nat.cast_le (α := ℚ)]
    push_cast
    rw [hscaled]
    nlinarith
  · rw [← Nat.cast_le (α := ℚ)]
    push_cast
    rw [hscaled]
    nlinarith
  · have hcancel (z : ℚ) (hz : (a : ℚ) = z * b) : y = z :=
      mul_right_cancel₀ hpos'.ne' (hscaled.symm.trans hz)
    -- At a tie the end of the neighbourhood belongs to it only for an even mantissa.
    rintro (htie | htie)
    · rw [← Nat.cast_inj (R := ℚ)] at htie
      push_cast at htie
      have hy' : y = m - 1 / 2 := hcancel _ (by linarith)
      rcases h.above with hlt | ⟨heven, -⟩
      · rw [hy, mul_lt_mul_iff_left₀ hpower] at hlt
        linarith
      · exact heven
    · rw [← Nat.cast_inj (R := ℚ)] at htie
      push_cast at htie
      have hy' : y = m + 1 / 2 := hcancel _ (by linarith)
      rcases h.below with hlt | ⟨heven, -⟩
      · rw [hy, mul_lt_mul_iff_left₀ hpower] at hlt
        linarith
      · exact heven

/-- A quotient is rounded to the number whose neighbourhood it lies in. -/
theorem ofRatio_of_near (negative : Bool) (hm : 0 < m) (hregular : Regular m e)
    (h : Near m e (n / d)) : ofRatio negative n d = .finite negative m e := by
  have hd' : (0 : ℚ) < d := by exact_mod_cast hd
  have hn : 0 < n := by
    have hpos := h.pos hm
    rw [div_pos_iff_of_pos_right hd'] at hpos
    exact_mod_cast hpos
  have hspans := spans_exponentFor hn hd
  have hgreatest := hregular.le_greatest
  by_cases hfull : minExponent < e → (2 : ℚ) ^ (e + 52) ≤ n / d
  · have he : exponentFor n d = e :=
      hspans.unique ⟨h.lt_two_zpow hregular, hregular.least_le, hfull⟩
    rw [ofRatio_eq negative hn.ne' he, roundDiv_of_near hd h, if_neg hregular.lt.ne,
      if_neg (not_lt.mpr hgreatest)]
  · -- below a power of two the grid is finer, and rounding on it carries to the power
    push Not at hfull
    obtain ⟨hleast, hbelow⟩ := hfull
    obtain rfl := h.eq_leastNormal hregular hleast hbelow
    have he : exponentFor n d = e - 1 := hspans.unique (h.spans_finer hleast hbelow)
    have hround := roundDiv_of_near hd (h.finer hleast hbelow)
    rw [ofRatio_eq negative hn.ne' he, hround, if_pos rfl, if_neg (by omega),
      Int.sub_add_cancel]

end

/-! ## Decimals -/

section

variable {m : Nat} {e : Int} {x : ℚ}

theorem tenTo_cast (k : Nat) : (tenTo k : ℚ) = 10 ^ k := by
  change ((10 ^ k : Nat) : ℚ) = 10 ^ k
  push_cast
  rfl

theorem tenTo_div (g : Int) : (tenTo g.toNat : ℚ) / tenTo (-g).toNat = 10 ^ g := by
  rw [tenTo_cast, tenTo_cast]
  rcases Int.le_total 0 g with h | h
  · obtain ⟨k, rfl⟩ := Int.eq_ofNat_of_zero_le h
    simp
  · obtain ⟨k, hk⟩ := Int.eq_ofNat_of_zero_le (Int.neg_nonneg_of_nonpos h)
    obtain rfl : g = -(k : Int) := by omega
    simp

theorem two_pow_le_ten_pow (k : Nat) : (2 : ℚ) ^ (3 * k) ≤ 10 ^ k := by
  rw [pow_mul]
  gcongr
  norm_num

theorem Near.lt_ten_pow (h : Near m e x) (hregular : Regular m e) : x < 10 ^ (400 : Int) := by
  have hgreatest := hregular.le_greatest
  calc x < 2 ^ (e + 53) := h.lt_two_zpow hregular
    _ ≤ 2 ^ ((3 * 400 : Nat) : Int) :=
        zpow_le_zpow_right₀ (by norm_num) (by unfold maxExponent at *; omega)
    _ ≤ 10 ^ (400 : Int) := by exact_mod_cast two_pow_le_ten_pow 400

theorem Near.ge_ten_pow (h : Near m e x) (hregular : Regular m e) (hm : 0 < m) :
    (10 : ℚ) ^ (-401 : Int) ≤ x := by
  have hleast := hregular.least_le
  have hreach := reach_le m e
  have hm' : (1 : ℚ) ≤ m := by exact_mod_cast hm
  have hpower : (0 : ℚ) < 2 ^ e := by positivity
  calc (10 : ℚ) ^ (-401 : Int) ≤ 2 ^ (-((3 * 401 : Nat) : Int)) := by
        rw [zpow_neg, zpow_neg]
        exact inv_anti₀ (by positivity) (by exact_mod_cast two_pow_le_ten_pow 401)
    _ ≤ 2 ^ (minExponent - 1) := zpow_le_zpow_right₀ (by norm_num) (by decide)
    _ ≤ 2 ^ (e - 1) := zpow_le_zpow_right₀ (by norm_num) (by omega)
    _ = 1 / 2 * 2 ^ e := by rw [zpow_eq_two_mul e]; ring
    _ ≤ (m - reach m e) * 2 ^ e := by
        rw [mul_le_mul_iff_left₀ hpower]
        linarith
    _ ≤ x := h.ge

theorem digits_bounds {n : Nat} (hn : 0 < n) (g : Int) :
    (10 : ℚ) ^ (g + (Nat.toDigits 10 n).length - 1) ≤ n * 10 ^ g ∧
      (n * 10 ^ g : ℚ) < 10 ^ (g + (Nat.toDigits 10 n).length) := by
  have hlength : 0 < (Nat.toDigits 10 n).length :=
    List.length_pos_iff.mpr Nat.toDigits_ne_nil
  have hpower : (0 : ℚ) < 10 ^ g := by positivity
  have hhigh : n < 10 ^ (Nat.toDigits 10 n).length :=
    (Nat.length_toDigits_le_iff (by decide) hlength).mp (le_refl _)
  have hlow : 10 ^ ((Nat.toDigits 10 n).length - 1) ≤ n := by
    rcases Nat.eq_zero_or_pos ((Nat.toDigits 10 n).length - 1) with hone | hmany
    · rw [hone]
      exact hn
    · by_contra hlt
      have hle := (Nat.length_toDigits_le_iff (by decide) hmany).mpr (Nat.lt_of_not_le hlt)
      omega
  constructor
  · rw [show g + (Nat.toDigits 10 n).length - 1 =
        (((Nat.toDigits 10 n).length - 1 : Nat) : Int) + g by omega,
      zpow_add₀ (by norm_num), mul_le_mul_iff_left₀ hpower, zpow_natCast]
    exact_mod_cast hlow
  · rw [add_comm, zpow_add₀ (by norm_num), mul_lt_mul_iff_left₀ hpower, zpow_natCast]
    exact_mod_cast hhigh

theorem ofDecimal_zero (negative : Bool) (g : Int) : ofDecimal negative 0 g = zero negative := rfl

theorem ofDecimal_of_near (negative : Bool) (hm : 0 < m) (hregular : Regular m e) {n : Nat}
    {g : Int} (h : Near m e (n * 10 ^ g)) : ofDecimal negative n g = .finite negative m e := by
  have hpower : (0 : ℚ) < 10 ^ g := by positivity
  have hn : 0 < n := by
    have hpos := h.pos hm
    rw [mul_pos_iff_of_pos_right hpower] at hpos
    exact_mod_cast hpos
  obtain ⟨hlow, hhigh⟩ := digits_bounds hn g
  have htop := lt_of_le_of_lt hlow (h.lt_ten_pow hregular)
  have hbottom := lt_of_le_of_lt (h.ge_ten_pow hregular hm) hhigh
  rw [zpow_lt_zpow_iff_right₀ (by norm_num)] at htop hbottom
  have hratio : ((n * tenTo g.toNat : Nat) : ℚ) / tenTo (-g).toNat = n * 10 ^ g := by
    rw [Nat.cast_mul, mul_div_assoc, tenTo_div]
  unfold ofDecimal
  dsimp only
  rw [if_neg hn.ne', if_neg (by omega), if_neg (by omega)]
  exact ofRatio_of_near (tenTo_pos _) negative hm hregular (hratio ▸ h)

end

end Binary64

end HdfsBrowser
