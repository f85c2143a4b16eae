import HdfsBrowser.Proofs.Json.WellFormed
import HdfsBrowser.Proofs.Number.Shortest
import HdfsBrowser.Proofs.Settings.Loading

/-!
# What settings are converted to

Whatever a text says for a setting, the value that the setting takes can be
written again: a text always can, a time limit is a number of the format, and a
size has no more digits than are converted.
-/

namespace HdfsBrowser

namespace Numeral

theorem lt_of_mem_readDigits {owed : Bool} {cs rest : List Char} {ds : List Nat}
    (h : readDigits owed cs = some (ds, rest)) : ∀ d ∈ ds, d < 10 := by
  induction cs generalizing owed ds rest with
  | nil =>
      unfold readDigits at h
      split at h <;> simp_all
  | cons c cs ih =>
      unfold readDigits at h
      split at h
      · next d hd =>
          obtain ⟨⟨more, last⟩, hmore, heq⟩ := Option.map_eq_some_iff.mp h
          obtain ⟨rfl, -⟩ := Prod.mk.inj heq
          exact List.forall_mem_cons.mpr ⟨Text.lt_of_decimalDigit? hd, ih hmore⟩
      · split at h
        · cases h
        · split at h
          · exact ih h
          · cases h
            simp

theorem fits_of_read {s : String} {n : Int} (h : read s = .ok n) : Fits n := by
  unfold read at h
  dsimp only at h
  split at h
  · cases h
  · next ds rest hdigits =>
      split at h
      · cases h
      · next hlength =>
          split at h
          · cases h
            rw [Fits, natAbs_signed]
            exact valueOf_lt_tenTo (lt_of_mem_readDigits hdigits) (Nat.not_lt.mp hlength)
          · cases h

end Numeral

namespace Binary64

theorem twoTo_le_twoTo {j k : Nat} (h : j ≤ k) : twoTo j ≤ twoTo k :=
  Nat.pow_le_pow_right (by decide) h

theorem twoTo_add (j k : Nat) : twoTo (j + k) = twoTo j * twoTo k := Nat.pow_add 2 j k

theorem natAbs_truncate_lt {x : Binary64} (hregular : x.IsRegular) {n : Int}
    (h : x.truncate? = some n) : n.natAbs < twoTo 1024 := by
  cases x with
  | nan | infinite negative => cases h
  | finite negative m e =>
      have hm : m < twoTo 53 := hregular.lt
      have he : e.toNat ≤ 971 := by
        have hgreatest := hregular.le_greatest
        unfold maxExponent at hgreatest
        omega
      have hpart : n.natAbs = (ratio m e).1 / (ratio m e).2 := by
        obtain rfl := Option.some.inj h
        split
        · rw [Int.natAbs_neg]
          exact Int.natAbs_natCast _
        · exact Int.natAbs_natCast _
      calc n.natAbs = (ratio m e).1 / (ratio m e).2 := hpart
        _ ≤ m * twoTo e.toNat := Nat.div_le_self _ _
        _ ≤ m * twoTo 971 := Nat.mul_le_mul_left m (twoTo_le_twoTo he)
        _ < twoTo 53 * twoTo 971 := Nat.mul_lt_mul_of_pos_right hm (twoTo_pos 971)
        _ = twoTo 1024 := (twoTo_add 53 971).symm

end Binary64

namespace Decimal

theorem isRegular_of_readUnsigned? {negative : Bool} {cs : List Char} {x : Binary64}
    (h : readUnsigned? negative cs = some x) : x.IsRegular := by
  unfold readUnsigned? at h
  dsimp only at h
  split at h
  · cases h
    trivial
  · split at h
    · cases h
      trivial
    · obtain ⟨⟨whole, part, rest⟩, -, h⟩ := Option.bind_eq_some_iff.mp h
      obtain ⟨e, -, h⟩ := Option.bind_eq_some_iff.mp h
      cases h
      exact Binary64.isRegular_ofDecimal _ _ _

theorem isRegular_of_read? {s : String} {x : Binary64} (h : read? s = some x) : x.IsRegular := by
  obtain ⟨cs, -, h⟩ := Option.bind_eq_some_iff.mp h
  exact isRegular_of_readUnsigned? h

end Decimal

namespace Value

variable {v : Value}

theorem isRegular_of_asFloat (hv : v.WellFormed) {x : Binary64} (h : v.asFloat = .ok x) :
    x.IsRegular := by
  cases v with
  | null | list items | object members => cases h
  | bool b =>
      cases h
      exact Binary64.isRegular_ofInt _
  | int n =>
      simp only [asFloat] at h
      split at h
      · cases h
        exact Binary64.isRegular_ofInt n
      · cases h
  | float y =>
      cases h
      cases hv with
      | float hregular => exact hregular
  | str s =>
      simp only [asFloat] at h
      split at h
      · next y hread =>
          cases h
          exact Decimal.isRegular_of_read? hread
      · cases h

theorem fits_of_asInteger (hv : v.WellFormed) {n : Int} (h : v.asInteger = .ok n) :
    Numeral.Fits n := by
  cases v with
  | null | list items | object members => cases h
  | bool b => cases b <;> cases h <;> decide +kernel
  | int m =>
      cases h
      cases hv with
      | int hfits => exact hfits
  | float x =>
      cases hv with
      | float hregular =>
          cases hx : x.truncate? with
          | none =>
              cases x with
              | nan | infinite negative => cases h
              | finite negative m e => cases hx
          | some m =>
              have hm := Binary64.natAbs_truncate_lt hregular hx
              have hn : n = m := by
                cases x with
                | nan | infinite negative => cases hx
                | finite negative m e =>
                    simp only [asInteger, ofBinary64, hx, Option.getD_some] at h
                    exact (Except.ok.inj h).symm
              rw [hn]
              exact Nat.lt_of_lt_of_le hm (Decimal.twoTo_le_tenTo (by decide))
  | str s =>
      cases hread : Numeral.read s with
      | error why => simp [asInteger, hread, Except.mapError] at h
      | ok m =>
          simp only [asInteger, hread, Except.mapError, Except.ok.injEq] at h
          exact h ▸ Numeral.fits_of_read hread

end Value

namespace Settings

variable {key : Key} {v w : Value} {members : List (String × Value)}

theorem map_eq_ok {α : Type} {f : α → Value} {x : Except Fault α} (h : x.map f = .ok w) :
    ∃ a, x = .ok a ∧ f a = w := by
  cases x with
  | ok a => exact ⟨a, rfl, Except.ok.inj h⟩
  | error why => cases h

theorem Key.wellFormed_convert (hv : v.WellFormed) (h : key.convert v = .ok w) : w.WellFormed := by
  cases key with
  | gateway | service | user =>
      obtain ⟨text, -, rfl⟩ := map_eq_ok h
      exact .str text
  | timeout =>
      obtain ⟨x, hfloat, rfl⟩ := map_eq_ok h
      exact .float (Value.isRegular_of_asFloat hv hfloat)
  | tailChunk =>
      obtain ⟨n, hinteger, rfl⟩ := map_eq_ok h
      exact .int (Value.fits_of_asInteger hv hinteger)

end Settings

end HdfsBrowser
