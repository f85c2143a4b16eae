import HdfsBrowser.Json.Printer
import HdfsBrowser.Proofs.Json.Numeral
import HdfsBrowser.Proofs.Number.Shortest

/-!
# Numbers with a point

The text of a number is a numeral for its shortest decimal, wherever the point
stands and whether there is a power or none.  So reading the text gives the
number back.
-/

namespace HdfsBrowser.Json

open Numeral (digits values valueOf values_append valueOf_append)

/-! ## Digits and their place -/

theorem valueOf_zeros_eq (k : Nat) : valueOf (values (List.replicate k '0')) = 0 := by
  induction k with
  | zero => rfl
  | succ k ih =>
      rw [List.replicate_succ', values_append, valueOf_append, ih]
      rfl

structure IsTrimmed (ds : List Char) : Prop where
  digits : ∀ c ∈ ds, c.isDigit = true
  nonempty : ds ≠ []
  head : ds.head? ≠ some '0'

theorem length_values (cs : List Char) : (values cs).length = cs.length := List.length_map _

theorem exists_zeros (cs : List Char) :
    ∃ k, cs = Text.trimEndBy (· == '0') cs ++ List.replicate k '0' := by
  have hsplit := List.takeWhile_append_dropWhile (p := (· == '0')) (l := cs.reverse)
  have hzeros : ∀ c ∈ cs.reverse.takeWhile (· == '0'), c = '0' := fun c hc => by
    simpa using List.mem_takeWhile_imp hc
  unfold Text.trimEndBy
  rw [List.eq_replicate_of_mem hzeros] at hsplit
  refine ⟨(cs.reverse.takeWhile (· == '0')).length, ?_⟩
  rw [← List.reverse_replicate, ← List.reverse_append, hsplit, List.reverse_reverse]

def shifted (ds : List Char) (point : Int) : ℚ := valueOf (values ds) * 10 ^ (point - ds.length)

theorem placed_spec {c : Nat} (hc : 0 < c) (g : Int) :
    IsTrimmed (Decimal.placed c g).1 ∧
      shifted (Decimal.placed c g).1 (Decimal.placed c g).2 = c * 10 ^ g := by
  obtain ⟨k, hk⟩ := exists_zeros (digits c)
  have hvalue := Numeral.valueOf_values_digits c
  have hhead := Numeral.head?_digits_ne hc
  have hdigits : ∀ d ∈ digits c, d.isDigit = true := fun d => Numeral.isDigit_of_mem_digits
  have hplaced : Decimal.placed c g =
      (Text.trimEndBy (· == '0') (digits c), (digits c).length + g) := rfl
  rw [hplaced]
  generalize Text.trimEndBy (· == '0') (digits c) = ds at hk
  generalize digits c = cs at *
  subst hk
  rw [values_append, valueOf_append, valueOf_zeros_eq, Nat.add_zero, length_values,
    List.length_replicate] at hvalue
  have hne : ds ≠ [] := by
    rintro rfl
    rw [show valueOf (values []) = 0 from rfl, Nat.zero_mul] at hvalue
    omega
  refine ⟨⟨fun d hd => hdigits d (List.mem_append_left _ hd), hne, ?_⟩, ?_⟩
  · rwa [List.head?_append_of_ne_nil _ hne] at hhead
  · have hvalue' : (c : ℚ) = valueOf (values ds) * 10 ^ (k : Int) := by
      rw [← hvalue]
      push_cast
      rw [zpow_natCast]
    rw [shifted, hvalue', mul_assoc, ← zpow_add₀ (by norm_num)]
    congr 2
    simp only [List.length_append, List.length_replicate]
    omega

/-! ## Notations -/

def Parts.amount (p : Parts) : ℚ :=
  valueOf (values (p.whole ++ p.part)) * 10 ^ (p.exponent - p.part.length)

/-- The text is a numeral for the amount. -/
def Denotes (cs : List Char) (x : ℚ) : Prop :=
  ∃ p : Parts, p.IsWritten ∧ p.chars = cs ∧ p.amount = x

theorem isWhole_zero : IsWhole ['0'] := isWhole_digits 0

section

variable {ds : List Char} (h : IsTrimmed ds) (point : Int)
include h

theorem denotes_below_one (hpoint : point ≤ 0) :
    Denotes (['0', '.'] ++ List.replicate (-point).toNat '0' ++ ds) (shifted ds point) := by
  refine ⟨⟨['0'], List.replicate (-point).toNat '0' ++ ds, none⟩, ⟨isWhole_zero, ?_, ?_, ?_⟩, ?_,
    ?_⟩
  · intro c hc
    rcases List.mem_append.mp hc with hzero | hdigit
    · rw [List.eq_of_mem_replicate hzero]
      rfl
    · exact h.digits c hdigit
  · simp
  · exact .inl (by simp [h.nonempty])
  · simp [Parts.chars, Parts.partChars, Parts.powerChars, h.nonempty]
  · have hvalue : valueOf (values (['0'] ++ (List.replicate (-point).toNat '0' ++ ds))) =
        valueOf (values ds) := by
      rw [← List.append_assoc, values_append, valueOf_append, ← List.replicate_one,
        ← List.replicate_add, valueOf_zeros_eq, Nat.zero_mul, Nat.zero_add]
    unfold Parts.amount shifted Parts.exponent
    rw [hvalue]
    congr 2
    simp only [Option.map_none, Option.getD_none, List.length_append, List.length_replicate]
    omega

theorem denotes_integer {n : Nat} (hpoint : point = n) (hlength : ds.length ≤ n) :
    Denotes (ds ++ List.replicate (n - ds.length) '0' ++ ['.', '0']) (shifted ds point) := by
  have hzeros : ∀ c ∈ List.replicate (n - ds.length) '0', c.isDigit = true := by
    intro c hc
    rw [List.eq_of_mem_replicate hc]
    rfl
  refine ⟨⟨ds ++ List.replicate (n - ds.length) '0', ['0'], none⟩, ⟨⟨?_, ?_, ?_⟩, ?_, ?_, ?_⟩, ?_,
    ?_⟩
  · intro c hc
    exact (List.mem_append.mp hc).elim (h.digits c) (hzeros c)
  · simp [h.nonempty]
  · intro hhead
    rw [List.head?_append_of_ne_nil _ h.nonempty] at hhead
    exact absurd hhead h.head
  · simp
  · simp
  · exact .inl (by simp)
  · simp [Parts.chars, Parts.partChars, Parts.powerChars]
  · have hvalue : valueOf (values (ds ++ List.replicate (n - ds.length) '0' ++ ['0'])) =
        valueOf (values ds) * 10 ^ (n - ds.length + 1) := by
      rw [List.append_assoc, ← List.replicate_succ', values_append, valueOf_append,
        valueOf_zeros_eq, Nat.add_zero, length_values, List.length_replicate]
    unfold Parts.amount shifted Parts.exponent
    rw [hvalue]
    push_cast
    rw [mul_assoc, ← zpow_natCast, ← zpow_add₀ (by norm_num)]
    congr 2
    simp only [Option.map_none, Option.getD_none, List.length_singleton]
    omega

theorem denotes_split {n : Nat} (hpoint : point = n) (hn : 0 < n) (hlength : n < ds.length) :
    Denotes (ds.take n ++ ['.'] ++ ds.drop n) (shifted ds point) := by
  refine ⟨⟨ds.take n, ds.drop n, none⟩, ⟨⟨?_, ?_, ?_⟩, ?_, ?_, ?_⟩, ?_, ?_⟩
  · exact fun c hc => h.digits c (List.mem_of_mem_take hc)
  · simp [h.nonempty, hn.ne']
  · intro hhead
    rw [List.head?_take, if_neg hn.ne'] at hhead
    exact absurd hhead h.head
  · exact fun c hc => h.digits c (List.mem_of_mem_drop hc)
  · simp
  · exact .inl (by simp [hlength])
  · simp [Parts.chars, Parts.partChars, Parts.powerChars, hlength]
  · unfold Parts.amount shifted Parts.exponent
    rw [List.take_append_drop]
    congr 2
    simp only [Option.map_none, Option.getD_none, List.length_drop]
    omega

theorem denotes_positional : Denotes (Decimal.positional ds point) (shifted ds point) := by
  unfold Decimal.positional
  split
  · next hpoint => exact denotes_below_one h point hpoint
  · next hpoint =>
      have hcast : point = (point.toNat : Int) := by omega
      dsimp only
      split
      · next hlength => exact denotes_integer h point hcast hlength
      · next hlength => exact denotes_split h point hcast (by omega) (by omega)

theorem denotes_scientific : Denotes (Decimal.scientific ds point) (shifted ds point) := by
  have hplaces : ∀ c ∈ List.replicate (2 - (digits (point - 1).natAbs).length) '0' ++
      digits (point - 1).natAbs, c.isDigit = true := by
    intro c hc
    rcases List.mem_append.mp hc with hzero | hdigit
    · rw [List.eq_of_mem_replicate hzero]
      rfl
    · exact Numeral.isDigit_of_mem_digits hdigit
  have hpower : valueOf (values (List.replicate (2 - (digits (point - 1).natAbs).length) '0' ++
      digits (point - 1).natAbs)) = (point - 1).natAbs := by
    rw [values_append, valueOf_append, valueOf_zeros_eq, Nat.zero_mul, Nat.zero_add,
      Numeral.valueOf_values_digits]
  obtain ⟨d, rest, rfl⟩ : ∃ d rest, ds = d :: rest := List.exists_cons_of_ne_nil h.nonempty
  have hd : d ≠ '0' := fun heq => h.head (by rw [heq]; rfl)
  refine ⟨⟨[d], rest, some (decide (point - 1 < 0),
    List.replicate (2 - (digits (point - 1).natAbs).length) '0' ++ digits (point - 1).natAbs)⟩,
    ⟨⟨?_, ?_, ?_⟩, ?_, ?_, ?_⟩, ?_, ?_⟩
  · exact fun c hc => h.digits c (List.mem_singleton.mp hc ▸ List.mem_cons_self)
  · simp
  · exact fun hhead => absurd (Option.some.inj hhead) hd
  · exact fun c hc => h.digits c (List.mem_cons_of_mem d hc)
  · rintro negative places hsome
    obtain ⟨-, rfl⟩ := Prod.mk.inj (Option.some.inj hsome)
    exact ⟨by simp [Numeral.digits_ne_nil], hplaces⟩
  · exact .inr (by simp)
  · cases rest with
    | nil => simp [Parts.chars, Parts.partChars, Parts.powerChars, Decimal.scientific]
    | cons c rest => simp [Parts.chars, Parts.partChars, Parts.powerChars, Decimal.scientific]
  · unfold Parts.amount shifted Parts.exponent
    simp only [Option.map_some, Option.getD_some, hpower, Numeral.signed_natAbs,
      List.singleton_append]
    congr 2
    simp only [List.length_cons]
    push_cast
    ring

end

/-! ## Reading -/

theorem denotes_finiteChars {m : Nat} {e : Int} (hregular : Binary64.Regular m e) (hm : 0 < m) :
    ∃ x, Denotes (Decimal.finiteChars m e) x ∧ Binary64.Near m e x := by
  have hnear := Decimal.near_shortest hregular hm
  unfold Decimal.finiteChars
  rw [if_neg hm.ne']
  -- Left in place, the search would be evaluated.
  generalize Decimal.shortest m e = decimal at hnear
  obtain ⟨c, g⟩ := decimal
  have hc : 0 < c := by
    have hpos := hnear.pos hm
    rw [mul_pos_iff_of_pos_right (by positivity)] at hpos
    exact_mod_cast hpos
  obtain ⟨htrimmed, hshifted⟩ := placed_spec hc g
  refine ⟨_, ?_, hnear⟩
  rw [← hshifted]
  dsimp only
  generalize Decimal.placed c g = digits at htrimmed
  obtain ⟨ds, point⟩ := digits
  dsimp only
  split
  · exact denotes_scientific htrimmed point
  · exact denotes_positional htrimmed point

theorem unsigned_finiteChars {m : Nat} {e : Int} (hregular : Binary64.Regular m e)
    (negative : Bool) {rest : List Char} (hrest : Stops rest) :
    unsigned negative (Decimal.finiteChars m e ++ rest) =
      .ok (.float (.finite negative m e), rest) := by
  rcases Nat.eq_zero_or_pos m with rfl | hm
  · have hzero : (⟨['0'], ['0'], none⟩ : Parts).IsWritten :=
      ⟨isWhole_zero, by simp, by simp, .inl (by simp)⟩
    have hleast : e = Binary64.minExponent := by
      by_contra hne
      exact absurd (hregular.full (lt_of_le_of_ne hregular.least_le (Ne.symm hne)))
        (Nat.not_le.mpr (Binary64.twoTo_pos 52))
    have hchars : Decimal.finiteChars 0 e = (⟨['0'], ['0'], none⟩ : Parts).chars := rfl
    have hvalue : valueOf (values (['0'] ++ ['0'])) = 0 := rfl
    rw [hchars, Parts.unsigned_chars hzero negative hrest, hvalue, Binary64.ofDecimal_zero, hleast]
    rfl
  · obtain ⟨x, ⟨p, hwritten, hchars, hamount⟩, hnear⟩ := denotes_finiteChars hregular hm
    rw [← hchars, Parts.unsigned_chars hwritten negative hrest]
    rw [← hamount, Parts.amount] at hnear
    rw [Binary64.ofDecimal_of_near negative hm hregular hnear]

end HdfsBrowser.Json
