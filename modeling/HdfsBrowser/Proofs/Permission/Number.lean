import HdfsBrowser.Permission
import HdfsBrowser.Proofs.Number.Integer

/-!
# Permissions given as numbers

A number is a permission when it has no digit 8 or 9 and no more than four
digits.  Every other number is refused: its digits are those of ASCII, so that
no triad is missing.
-/

namespace HdfsBrowser.Permission

open Numeral (digits)

theorem asText_int (n : Int) :
    (Value.int n).asText =
      if Numeral.Fits n then .ok (Numeral.text n) else .error (.numeral (.tooLong none)) := by
  unfold Value.asText Value.write Value.printable
  by_cases hfits : Numeral.Fits n
  · simp [hfits, Except.mapError, Value.text, Value.literal]
  · simp [hfits, Except.mapError]

def hasLargeDigit (n : Nat) : Bool := (digits n).any fun c => c == '8' || c == '9'

theorem parse_ofNat {n : Nat} (h : n < tenTo Numeral.digitLimit) :
    parse (.int n) =
      if hasLargeDigit n then .error (.rejected (.octalDigit (Numeral.text n)))
      else if maxBits < n then .error (.rejected (.bitsRange (Numeral.text n)))
      else .ok n := by
  have hfits : Numeral.Fits (n : Int) := h
  have htrim : Text.trimBy Text.isBlank (Numeral.text n).toList = digits n := by
    rw [Numeral.text, String.toList_ofList]
    exact Numeral.trimBy_digits (fun c => Text.isBlank_of_isDigit) n
  have hall : (digits n).all Text.isDigit = true :=
    List.all_eq_true.mpr fun c hc => Text.isDigit_of_isDigit (Numeral.isDigit_of_mem_digits hc)
  have hnonempty : (digits n).isEmpty = false := by
    simpa using Numeral.digits_ne_nil n
  unfold parse
  rw [asText_int, if_pos hfits]
  simp only [bind, Except.bind, htrim, hall, hnonempty, Numeral.read_digits h, Except.mapError,
    Bool.not_true, Bool.or_false, Bool.false_eq_true, ↓reduceIte, Int.ofNat_lt, Int.toNat_natCast]
  rfl

theorem parse_negSucc {n : Nat} (h : Numeral.Fits (.negSucc n)) :
    parse (.int (.negSucc n)) = .error (.rejected (.notOctal (Numeral.text (.negSucc n)))) := by
  have htrim : Text.trimBy Text.isBlank (Numeral.text (.negSucc n)).toList =
      '-' :: digits (n + 1) := by
    rw [Numeral.text, String.toList_ofList]
    apply Text.trimBy_of_forall
    intro c hc
    rcases List.mem_cons.mp hc with rfl | hdigit
    · decide
    · exact Text.isBlank_of_isDigit (Numeral.isDigit_of_mem_digits hdigit)
  have hall : ('-' :: digits (n + 1)).all Text.isDigit = false := by
    have hsign : Text.isDigit '-' = false := by decide
    simp [hsign]
  unfold parse
  rw [asText_int, if_pos h]
  simp only [bind, Except.bind, htrim, hall, Bool.not_false, Bool.or_true, ↓reduceIte]

theorem last_lt_of_not_hasLargeDigit {n : Nat} (h : hasLargeDigit n = false) :
    n % 10 < 8 ∧ hasLargeDigit (n / 10) = false := by
  unfold hasLargeDigit digits at *
  rw [Nat.toDigits_eq_if (by decide)] at h
  have hlast : ∀ d, d < 10 → (d.digitChar == '8' || d.digitChar == '9') = false → d < 8 := by
    decide
  split at h
  · next hsmall =>
      have hzero : n / 10 = 0 := Nat.div_eq_of_lt hsmall
      rw [Nat.mod_eq_of_lt hsmall, hzero]
      exact ⟨hlast n hsmall (by simpa using h), by decide⟩
  · rw [List.any_append, Bool.or_eq_false_iff] at h
    exact ⟨hlast _ (Nat.mod_lt n (by decide)) (by simpa using h.2), h.1⟩

theorem hasTriads_of_not_hasLargeDigit {n : Nat} (h : hasLargeDigit n = false) :
    hasTriads n = true := by
  obtain ⟨hother, hrest⟩ := last_lt_of_not_hasLargeDigit h
  obtain ⟨hgroup, hrest⟩ := last_lt_of_not_hasLargeDigit hrest
  obtain ⟨howner, -⟩ := last_lt_of_not_hasLargeDigit hrest
  rw [Nat.div_div_eq_div_mul] at howner
  simp [hasTriads, hother, hgroup, howner]

theorem isMalformed_of_decode_int {n : Int} {isDirectory : Bool} {why : Fault}
    (h : decode (.int n) isDirectory = .error why) : why.isMalformed = true := by
  unfold decode at h
  by_cases hfits : Numeral.Fits n
  · cases n with
    | negSucc n =>
        rw [parse_negSucc hfits] at h
        cases h
        rfl
    | ofNat n =>
        have hparse := parse_ofNat (n := n) hfits
        change parse (.int (.ofNat n)) = _ at hparse
        rw [hparse] at h
        cases hlarge : hasLargeDigit n with
        | true =>
            simp only [hlarge, ↓reduceIte] at h
            cases h
            rfl
        | false =>
            by_cases hrange : maxBits < n
            · simp only [hlarge, hrange, Bool.false_eq_true, ↓reduceIte] at h
              cases h
              rfl
            · simp [hlarge, hrange, bind, Except.bind, hasTriads_of_not_hasLargeDigit hlarge] at h
  · have hparse : parse (.int n) = .error (.numeral (.tooLong none)) := by
      unfold parse
      rw [asText_int, if_neg hfits]
      rfl
    rw [hparse] at h
    cases h
    rfl

end HdfsBrowser.Permission
