import HdfsBrowser.Number.Decimal
import HdfsBrowser.Proofs.Number.Nearest

/-!
# The shortest decimal

The search takes a decimal only if it lies in the neighbourhood of the number.
Seventeen digits are a grid so fine that one of the two points around the number
lies in the neighbourhood, so the search always finds a decimal, and rounding
it gives the number back.
-/

namespace HdfsBrowser.Decimal

open Binary64 (Near Regular reach ratio leastNormal)

variable {m : Nat} {e : Int}

/-! ## The test of a decimal -/

section

variable {a b l r : Nat} (hb : 0 < b) (hr : 0 < r)
include hb hr

theorem cross_le_iff : a * r ≤ l * b ↔ (a / b : ℚ) ≤ l / r := by
  rw [div_le_div_iff₀ (by exact_mod_cast hb) (by exact_mod_cast hr)]
  exact_mod_cast Iff.rfl

theorem cross_lt_iff : a * r < l * b ↔ (a / b : ℚ) < l / r := by
  rw [div_lt_div_iff₀ (by exact_mod_cast hb) (by exact_mod_cast hr)]
  exact_mod_cast Iff.rfl

end

theorem quarter_zpow (e : Int) : (2 : ℚ) ^ (e - 2) = 2 ^ e / 4 := by
  rw [zpow_sub₀ (by norm_num)]
  norm_num

theorem bounds_div (hm : 0 < m) (e : Int) :
    ((ratio (bounds m e).1 (e - 2)).1 : ℚ) / (ratio (bounds m e).1 (e - 2)).2 =
        (m - reach m e) * 2 ^ e ∧
      ((ratio (bounds m e).2 (e - 2)).1 : ℚ) / (ratio (bounds m e).2 (e - 2)).2 =
        (m + 1 / 2) * 2 ^ e := by
  rw [Binary64.ratio_div, Binary64.ratio_div, quarter_zpow]
  unfold bounds reach
  constructor
  · split
    · rw [Nat.cast_sub (by omega)]
      push_cast
      ring
    · rw [Nat.cast_sub (by omega)]
      push_cast
      ring
  · push_cast
    ring

theorem decimal_div (c : Nat) (g : Int) :
    ((c * tenTo g.toNat : Nat) : ℚ) / tenTo (-g).toNat = c * 10 ^ g := by
  rw [Nat.cast_mul, mul_div_assoc, Binary64.tenTo_div]

theorem roundsTo_iff (hm : 0 < m) (e : Int) (c : Nat) (g : Int) :
    roundsTo m e c g = true ↔ Near m e (c * 10 ^ g) := by
  obtain ⟨hlow, hhigh⟩ := bounds_div hm e
  have hten := Binary64.tenTo_pos (-g).toNat
  have hpos (k : Nat) : 0 < (ratio k (e - 2)).2 := Binary64.ratio_snd_pos k _
  rw [← decimal_div]
  unfold roundsTo
  dsimp only
  split
  · next heven =>
      rw [Bool.and_eq_true, decide_eq_true_eq, decide_eq_true_eq,
        cross_le_iff (hpos _) hten, cross_le_iff hten (hpos _), hlow, hhigh]
      constructor
      · rintro ⟨habove, hbelow⟩
        exact ⟨habove.lt_or_eq.imp_right fun h => ⟨heven, h⟩,
          hbelow.lt_or_eq.imp_right fun h => ⟨heven, h⟩⟩
      · intro h
        exact ⟨h.ge, h.le⟩
  · next hodd =>
      rw [Bool.and_eq_true, decide_eq_true_eq, decide_eq_true_eq,
        cross_lt_iff (hpos _) hten, cross_lt_iff hten (hpos _), hlow, hhigh]
      constructor
      · rintro ⟨habove, hbelow⟩
        exact ⟨.inl habove, .inl hbelow⟩
      · intro h
        exact ⟨h.above.resolve_right fun h => hodd h.1, h.below.resolve_right fun h => hodd h.1⟩

/-! ## Grids -/

theorem div_eq_grid (n : Nat) {d : Nat} (hd : 0 < d) (g : Int) :
    (n / d : ℚ) = (n * tenTo (-g).toNat : Nat) / (d * tenTo g.toNat : Nat) * 10 ^ g := by
  have hd' : (0 : ℚ) < d := by exact_mod_cast hd
  have hten : (0 : ℚ) < tenTo g.toNat := by exact_mod_cast Binary64.tenTo_pos _
  have hnegative : (0 : ℚ) < tenTo (-g).toNat := by exact_mod_cast Binary64.tenTo_pos _
  rw [← Binary64.tenTo_div]
  push_cast
  field_simp

theorem distance_le {a b c : Nat} (hb : 0 < b) {k : ℚ} (hc : (c : ℚ) * b = a + k)
    (hk : |k| ≤ b / 2) (g : Int) : |(c * 10 ^ g : ℚ) - a / b * 10 ^ g| ≤ 10 ^ g / 2 := by
  have hb' : (0 : ℚ) < b := by exact_mod_cast hb
  have hpower : (0 : ℚ) < 10 ^ g := by positivity
  have hstep : (c * 10 ^ g : ℚ) - a / b * 10 ^ g = k / b * 10 ^ g := by
    field_simp
    linarith
  have hhalf : |k| / b ≤ 1 / 2 := by
    rw [div_le_iff₀ hb']
    linarith
  rw [hstep, abs_mul, abs_of_pos hpower, abs_div, abs_of_pos hb']
  nlinarith

theorem exists_neighbour (n : Nat) {d : Nat} (hd : 0 < d) (g : Int) :
    ∃ c ∈ neighbours n d g, |(c * 10 ^ g : ℚ) - n / d| ≤ 10 ^ g / 2 := by
  have hb : 0 < d * tenTo g.toNat := Nat.mul_pos hd (Binary64.tenTo_pos _)
  rw [div_eq_grid n hd g]
  unfold neighbours
  dsimp only
  generalize n * tenTo (-g).toNat = a, d * tenTo g.toNat = b at *
  have hdiv : ((a / b : Nat) : ℚ) * b + (a % b : Nat) = a := by
    have h := Nat.div_add_mod a b
    rw [Nat.mul_comm] at h
    exact_mod_cast h
  have hmod : ((a % b : Nat) : ℚ) < b := by exact_mod_cast Nat.mod_lt a hb
  split
  · next hsmall =>
      have hrest : (2 : ℚ) * (a % b : Nat) ≤ b := by exact_mod_cast (show 2 * (a % b) ≤ b by omega)
      refine ⟨a / b, List.mem_cons_self, distance_le (k := -(a % b : Nat)) hb (by linarith) ?_ g⟩
      rw [abs_neg, abs_of_nonneg (by positivity)]
      linarith
  · next hlarge =>
      have hrest : (b : ℚ) ≤ 2 * (a % b : Nat) := by exact_mod_cast (show b ≤ 2 * (a % b) by omega)
      refine ⟨a / b + 1, List.mem_cons_self, distance_le (k := b - (a % b : Nat)) hb ?_ ?_ g⟩
      · push_cast
        linarith
      · rw [abs_of_nonneg (by linarith)]
        linarith

theorem pow_leading_le {n d : Nat} (hn : d ≤ n * tenTo 400) (hd : 0 < d) :
    (10 : ℚ) ^ leading n d ≤ n / d := by
  have hd' : (0 : ℚ) < d := by exact_mod_cast hd
  have hpos : 0 < n * tenTo 400 / d := Nat.div_pos hn hd
  have hfloor : ((n * tenTo 400 / d : Nat) : ℚ) ≤ n / d * 10 ^ (400 : Int) := by
    have h : ((n * tenTo 400 / d * d : Nat) : ℚ) ≤ (n * tenTo 400 : Nat) := by
      exact_mod_cast Nat.div_mul_le_self _ _
    push_cast at h
    rw [Binary64.tenTo_cast] at h
    rw [div_mul_eq_mul_div, le_div_iff₀ hd']
    exact_mod_cast h
  have hlow := (Binary64.digits_bounds hpos (-400)).1
  have hpower : (0 : ℚ) < 10 ^ (-400 : Int) := by positivity
  unfold leading
  calc (10 : ℚ) ^ (((Nat.toDigits 10 (n * tenTo 400 / d)).length : Int) - 401)
      = 10 ^ (-400 + ((Nat.toDigits 10 (n * tenTo 400 / d)).length : Int) - 1) := by
        congr 1
        ring
    _ ≤ ((n * tenTo 400 / d : Nat) : ℚ) * 10 ^ (-400 : Int) := hlow
    _ ≤ n / d * 10 ^ (400 : Int) * 10 ^ (-400 : Int) := by gcongr
    _ = n / d := by
        rw [mul_assoc, ← zpow_add₀ (by norm_num)]
        norm_num

theorem near_of_close (hregular : Regular m e) {x step : ℚ} (hstep : 0 < step)
    (hfine : step * 10 ^ 16 ≤ m * 2 ^ e) (hclose : |x - m * 2 ^ e| ≤ step / 2) : Near m e x := by
  have hpower : (0 : ℚ) < 2 ^ e := by positivity
  obtain ⟨hlow, hhigh⟩ := abs_le.mp hclose
  have hm := hregular.lt_two_pow
  have hhalf : step / 2 < 1 / 2 * 2 ^ e := by nlinarith
  have hreach : step / 2 < reach m e * 2 ^ e := by
    unfold reach
    split
    · next hleast =>
        have hexact : (m : ℚ) = 2 ^ 52 := by
          rw [hleast.1, leastNormal, Binary64.twoTo_cast]
        rw [hexact] at hfine
        nlinarith
    · exact hhalf
  refine ⟨.inl ?_, .inl ?_⟩
  · rw [sub_mul]
    linarith
  · rw [add_mul]
    linarith

/-! ## The search -/

theorem near_of_search (hm : 0 < m) {top count : Int} {fuel c : Nat} {g : Int}
    (h : search m e top fuel count = some (c, g)) : Near m e (c * 10 ^ g) := by
  induction fuel generalizing count with
  | zero => cases h
  | succ fuel ih =>
      simp only [search] at h
      split at h
      · next found hfind =>
          obtain ⟨rfl, rfl⟩ := Prod.mk.inj (Option.some.inj h)
          have hrounds := List.find?_some hfind
          exact (roundsTo_iff hm e _ _).mp hrounds
      · exact ih h

theorem exists_search (hm : 0 < m) {top : Int} {fuel : Nat} (hfuel : 0 < fuel) (count : Int)
    (h : ∃ c ∈ neighbours (ratio m e).1 (ratio m e).2 (top - (count + (fuel - 1)) + 1),
      Near m e (c * 10 ^ (top - (count + (fuel - 1)) + 1))) :
    ∃ c g, search m e top fuel count = some (c, g) := by
  induction fuel generalizing count with
  | zero => exact absurd hfuel (lt_irrefl 0)
  | succ fuel ih =>
      simp only [search]
      split
      · next c hfind => exact ⟨c, _, rfl⟩
      · next hfind =>
          -- The last grid has a point in the neighbourhood, so the search does not end without one.
          rcases Nat.eq_zero_or_pos fuel with rfl | hpos
          · obtain ⟨c, hmem, hnear⟩ := h
            have hlast : count + (((0 + 1 : Nat) : Int) - 1) = count := by norm_num
            rw [hlast] at hmem hnear
            have hmiss := List.find?_eq_none.mp hfind c hmem
            exact absurd ((roundsTo_iff hm e c _).mpr hnear) hmiss
          · apply ih hpos
            rwa [show count + 1 + ((fuel : Int) - 1) = count + (((fuel + 1 : Nat) : Int) - 1) by
              push_cast
              ring]

theorem twoTo_le_tenTo {j k : Nat} (h : j ≤ 3 * k) : twoTo j ≤ tenTo k :=
  calc 2 ^ j ≤ 2 ^ (3 * k) := Nat.pow_le_pow_right (by decide) h
    _ = (2 ^ 3) ^ k := Nat.pow_mul ..
    _ ≤ 10 ^ k := Nat.pow_le_pow_left (by decide) k

theorem snd_ratio_le (hregular : Regular m e) (hm : 0 < m) :
    (ratio m e).2 ≤ (ratio m e).1 * tenTo 400 := by
  have hleast := hregular.least_le
  unfold Binary64.minExponent at hleast
  have hpos : 0 < (ratio m e).1 := Nat.mul_pos hm (Binary64.twoTo_pos _)
  exact (twoTo_le_tenTo (by omega)).trans (Nat.le_mul_of_pos_left _ hpos)

/-- The shortest decimal of a number lies in its neighbourhood. -/
theorem near_shortest (hregular : Regular m e) (hm : 0 < m) :
    Near m e ((shortest m e).1 * 10 ^ (shortest m e).2) := by
  have hratio := Binary64.ratio_div m e
  have hd := Binary64.ratio_snd_pos m e
  have htop := pow_leading_le (snd_ratio_le hregular hm) hd
  unfold shortest
  dsimp only
  generalize leading (ratio m e).1 (ratio m e).2 = top at *
  have hfine : (10 : ℚ) ^ (top - 16) * 10 ^ 16 ≤ m * 2 ^ e := by
    rw [← zpow_natCast, ← zpow_add₀ (by norm_num)]
    simpa [hratio] using htop
  obtain ⟨c, hmem, hclose⟩ := exists_neighbour (ratio m e).1 hd (top - 16)
  rw [hratio] at hclose
  have hnear : Near m e (c * 10 ^ (top - 16)) :=
    near_of_close hregular (by positivity) hfine hclose
  have hgrid : top - (1 + (((17 : Nat) : Int) - 1)) + 1 = top - 16 := by omega
  obtain ⟨found, g, hsearch⟩ := exists_search hm (by decide : 0 < 17) 1
    ⟨c, by rwa [hgrid], by rwa [hgrid]⟩
  rw [hsearch]
  exact near_of_search hm hsearch

end HdfsBrowser.Decimal
