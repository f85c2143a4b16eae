import HdfsBrowser.Number.Integer
import Mathlib.Data.List.DropRight
import Mathlib.Tactic.Linarith
import Mathlib.Tactic.Ring

/-!
# Integers and their digits

The digits of a number are decimal digits of ASCII, and no blanks.  Reading
them gives the number back, so an integer that has a text is read from it.
-/

namespace HdfsBrowser

namespace Text

theorem bounds_of_isDigit {c : Char} (h : c.isDigit = true) : 48 ≤ c.toNat ∧ c.toNat ≤ 57 := by
  simp only [Char.isDigit, Bool.and_eq_true, decide_eq_true_eq, ge_iff_le,
    UInt32.le_iff_toNat_le] at h
  exact h

theorem lt_of_decimalDigit? {c : Char} {d : Nat} (h : decimalDigit? c = some d) : d < 10 := by
  obtain ⟨first, hfirst, rfl⟩ := Option.map_eq_some_iff.mp h
  have hrange := List.find?_some hfirst
  simp only [Bool.and_eq_true, decide_eq_true_eq] at hrange
  omega

theorem decimalDigit?_of_isDigit {c : Char} (h : c.isDigit = true) :
    decimalDigit? c = some (c.toNat - '0'.toNat) := by
  obtain ⟨hlow, hhigh⟩ := bounds_of_isDigit h
  have hzeros : decimalZeros = 48 :: decimalZeros.tail := rfl
  have hfirst : (decide (48 ≤ c.toNat) && decide (c.toNat < 48 + 10)) = true := by
    rw [Bool.and_eq_true, decide_eq_true_eq, decide_eq_true_eq]
    exact ⟨hlow, by omega⟩
  have hfind : decimalZeros.find? (fun first => first ≤ c.toNat && c.toNat < first + 10) =
      some 48 := by
    rw [hzeros]
    exact List.find?_cons_of_pos hfirst
  rw [decimalDigit?, hfind]
  rfl

theorem isDigit_of_isDigit {c : Char} (h : c.isDigit = true) : isDigit c = true := by
  simp [isDigit, decimalDigit?_of_isDigit h]

theorem isBlank_of_isDigit {c : Char} (h : c.isDigit = true) : isBlank c = false := by
  obtain ⟨hlow, hhigh⟩ := bounds_of_isDigit h
  unfold isBlank isSpace
  simp only [Bool.or_eq_false_iff, Bool.and_eq_false_iff, decide_eq_false_iff_not,
    beq_eq_false_iff_ne]
  omega

theorem isSpace_of_isDigit {c : Char} (h : c.isDigit = true) : isSpace c = false := by
  have hblank := isBlank_of_isDigit h
  cases hspace : isSpace c with
  | false => rfl
  | true => simp [isBlank, hspace] at hblank

theorem trimBy_eq_self {p : Char → Bool} {cs : List Char}
    (hhead : ∀ c ∈ cs.head?, p c = false) (hlast : ∀ c ∈ cs.getLast?, p c = false) :
    trimBy p cs = cs := by
  have hdrop : cs.dropWhile p = cs := by
    cases cs with
    | nil => rfl
    | cons c rest => simp [hhead c (by simp)]
  unfold trimBy
  rw [hdrop]
  change cs.rdropWhile p = cs
  rw [List.rdropWhile_eq_self_iff]
  intro hne
  simp [hlast (cs.getLast hne) (List.getLast_mem_getLast? hne)]

theorem trimBy_of_forall {p : Char → Bool} {cs : List Char} (h : ∀ c ∈ cs, p c = false) :
    trimBy p cs = cs :=
  trimBy_eq_self (fun c hc => h c (List.mem_of_mem_head? hc))
    fun c hc => h c (List.mem_of_mem_getLast? hc)

end Text

namespace Numeral

theorem isDigit_of_mem_digits {n : Nat} {c : Char} (h : c ∈ digits n) : c.isDigit = true :=
  Nat.isDigit_of_mem_toDigits (by decide) (by decide) h

theorem digits_ne_nil (n : Nat) : digits n ≠ [] := Nat.toDigits_ne_nil

def values (cs : List Char) : List Nat := cs.map fun c => c.toNat - '0'.toNat

theorem readDigits_false {cs : List Char} (h : ∀ c ∈ cs, c.isDigit = true) :
    readDigits false cs = some (values cs, []) := by
  induction cs with
  | nil => rfl
  | cons c cs ih =>
      obtain ⟨hc, hcs⟩ := List.forall_mem_cons.mp h
      simp [readDigits, Text.decimalDigit?_of_isDigit hc, ih hcs, values]

theorem readDigits_digits (n : Nat) :
    readDigits true (digits n) = some (values (digits n), []) := by
  have hdigits : ∀ c ∈ digits n, c.isDigit = true := fun c => isDigit_of_mem_digits
  cases hcs : digits n with
  | nil => exact absurd hcs (digits_ne_nil n)
  | cons c cs =>
      rw [hcs, List.forall_mem_cons] at hdigits
      simp [readDigits, Text.decimalDigit?_of_isDigit hdigits.1, readDigits_false hdigits.2,
        values]

theorem values_append (cs ds : List Char) : values (cs ++ ds) = values cs ++ values ds :=
  List.map_append

theorem valueOf_append (ds es : List Nat) :
    valueOf (ds ++ es) = valueOf ds * 10 ^ es.length + valueOf es := by
  have hfold (n : Nat) (es : List Nat) :
      es.foldl (fun n d => n * 10 + d) n = n * 10 ^ es.length + valueOf es := by
    induction es generalizing n with
    | nil => simp [valueOf]
    | cons d es ih =>
        simp only [valueOf, List.foldl_cons, List.length_cons] at ih ⊢
        rw [ih, ih (0 * 10 + d), Nat.pow_succ]
        ring
  rw [← hfold (valueOf ds) es]
  exact List.foldl_append

theorem valueOf_lt {ds : List Nat} (h : ∀ d ∈ ds, d < 10) : valueOf ds < 10 ^ ds.length := by
  induction ds with
  | nil => decide
  | cons d ds ih =>
      obtain ⟨hd, hds⟩ := List.forall_mem_cons.mp h
      have hsingle : valueOf [d] = d := by simp [valueOf]
      have hmul : (d + 1) * 10 ^ ds.length ≤ 10 * 10 ^ ds.length := Nat.mul_le_mul_right _ hd
      rw [← List.singleton_append, valueOf_append, hsingle, List.length_append,
        List.length_singleton, Nat.pow_add, Nat.pow_one]
      have hrest := ih hds
      linarith

theorem valueOf_lt_tenTo {ds : List Nat} {k : Nat} (h : ∀ d ∈ ds, d < 10) (hk : ds.length ≤ k) :
    valueOf ds < tenTo k :=
  Nat.lt_of_lt_of_le (valueOf_lt h) (Nat.pow_le_pow_right (by decide) hk)

theorem lt_of_mem_values {cs : List Char} (h : ∀ c ∈ cs, c.isDigit = true) :
    ∀ d ∈ values cs, d < 10 := by
  intro d hd
  obtain ⟨c, hc, rfl⟩ := List.mem_map.mp hd
  obtain ⟨hlow, hhigh⟩ := Text.bounds_of_isDigit (h c hc)
  change c.toNat - 48 < 10
  omega

theorem valueOf_values_digits (n : Nat) : valueOf (values (digits n)) = n := by
  have hfold : valueOf (values (digits n)) = Nat.ofDigitChars 10 (digits n) 0 := by
    simp only [valueOf, values, List.foldl_map, Nat.ofDigitChars, Nat.mul_comm]
  rw [hfold, digits, Nat.ofDigitChars_toDigits (by decide) (by decide)]

theorem text_natCast_inj {m n : Nat} (h : text m = text n) : m = n := by
  have hdigits : digits m = digits n := by
    simpa [text, chars] using congrArg String.toList h
  rw [← valueOf_values_digits m, hdigits, valueOf_values_digits]

theorem length_values_digits_le_iff {k : Nat} (hk : 0 < k) (n : Nat) :
    (values (digits n)).length ≤ k ↔ n < tenTo k := by
  rw [values, List.length_map]
  exact Nat.length_toDigits_le_iff (by decide) hk

theorem head?_digits_ne {n : Nat} (hn : 0 < n) : (digits n).head? ≠ some '0' := by
  intro hhead
  obtain ⟨rest, hrest⟩ : ∃ rest, digits n = '0' :: rest := by
    cases hcs : digits n with
    | nil => exact absurd hcs (digits_ne_nil n)
    | cons c rest =>
        rw [hcs] at hhead
        exact ⟨rest, by rw [Option.some.inj hhead]⟩
  have hdigits : ∀ c ∈ rest, c.isDigit = true := fun c hc =>
    isDigit_of_mem_digits (n := n) (hrest ▸ List.mem_cons_of_mem _ hc)
  have hvalue : n = valueOf (values rest) := by
    rw [← valueOf_values_digits n, hrest]
    rfl
  have hlt := valueOf_lt (lt_of_mem_values hdigits)
  rw [← hvalue, values, List.length_map] at hlt
  cases hrest' : rest with
  | nil =>
      rw [hrest'] at hlt
      exact absurd hlt (Nat.not_lt.mpr hn)
  | cons c cs =>
      have hle := (Nat.length_toDigits_le_iff (b := 10) (by decide)
        (by rw [hrest']; exact Nat.succ_pos _)).mpr hlt
      change (digits n).length ≤ rest.length at hle
      rw [hrest, List.length_cons] at hle
      omega

theorem readSign_digits (n : Nat) : readSign (digits n) = (false, digits n) := by
  have hdigits : ∀ c ∈ digits n, c.isDigit = true := fun c => isDigit_of_mem_digits
  cases hcs : digits n with
  | nil => rfl
  | cons c cs =>
      rw [hcs, List.forall_mem_cons] at hdigits
      unfold readSign
      split
      · next heq =>
          cases heq
          exact absurd hdigits.1 (by decide)
      · next heq =>
          cases heq
          exact absurd hdigits.1 (by decide)
      · rfl

theorem trimBy_digits {p : Char → Bool} (h : ∀ c : Char, c.isDigit = true → p c = false)
    (n : Nat) : Text.trimBy p (digits n) = digits n :=
  Text.trimBy_of_forall fun c hc => h c (isDigit_of_mem_digits hc)

theorem read_digits {n : Nat} (h : n < tenTo digitLimit) :
    read (String.ofList (digits n)) = .ok n := by
  have hlength := (length_values_digits_le_iff (by decide) n).mpr h
  unfold read
  rw [String.toList_ofList, trimBy_digits fun c => Text.isSpace_of_isDigit, readSign_digits]
  simp only [readDigits_digits, Nat.not_lt.mpr hlength, valueOf_values_digits, List.isEmpty_nil,
    signed, ↓reduceIte, Bool.false_eq_true]

theorem signed_natAbs (n : Int) : signed (decide (n < 0)) n.natAbs = n := by
  cases n with
  | ofNat n => rfl
  | negSucc n =>
      rw [decide_eq_true (Int.negSucc_lt_zero n)]
      rfl

theorem natAbs_signed (negative : Bool) (n : Nat) : (signed negative n).natAbs = n := by
  unfold signed
  split <;> simp

end Numeral

end HdfsBrowser
