import HdfsBrowser.Json.Parser
import HdfsBrowser.Json.Printer
import HdfsBrowser.Proofs.Text.Utf8
import Mathlib.Tactic.SplitIfs

/-!
# Strings of JSON

Every character is written so that one step of the reader gives it back: as
itself, by a letter, by its code, or by the codes of a surrogate pair.  So a
string is read back whatever follows its closing mark.
-/

namespace HdfsBrowser.Json

/-! ## Codes -/

theorem hexDigit?_hexDigit {k : Nat} (h : k < 16) : Text.hexDigit? (Text.hexDigit k) = some k := by
  revert k
  decide

theorem readUnit?_hexDigits {n : Nat} (h : n < 0x10000) (rest : List Char) :
    readUnit? (Text.hexDigits 4 n ++ rest) = some (n, rest) := by
  have hdigits : Text.hexDigits 4 n = [Text.hexDigit (n / 16 / 16 / 16 % 16),
      Text.hexDigit (n / 16 / 16 % 16), Text.hexDigit (n / 16 % 16), Text.hexDigit (n % 16)] := rfl
  have hdigit (k : Nat) : Text.hexDigit? (Text.hexDigit (k % 16)) = some (k % 16) :=
    hexDigit?_hexDigit (Nat.mod_lt k (by decide))
  have hvalue : ((n / 16 / 16 / 16 % 16 * 16 + n / 16 / 16 % 16) * 16 + n / 16 % 16) * 16 +
      n % 16 = n := by omega
  simp only [hdigits, List.cons_append, List.nil_append, readUnit?, List.foldlM_cons,
    List.foldlM_nil, hdigit, Option.map_some, bind, pure, Option.bind_some, Nat.zero_mul,
    Nat.zero_add, hvalue]

theorem readEscape?_unit {c : Char} (h : c.toNat < 0x10000) (rest : List Char) :
    readEscape? ('u' :: (Text.hexDigits 4 c.toNat ++ rest)) = some (c, rest) := by
  have hhigh : ¬ (0xD800 ≤ c.toNat ∧ c.toNat < 0xDC00) := by
    have hscalar := Utf8.toNat_scalar c
    omega
  have hscalar : Charset.scalar? c.toNat = some c := by
    have hscalar := Utf8.toNat_scalar c
    rw [Charset.scalar?, if_pos (by omega), Char.ofNat_toNat]
  simp only [readEscape?, readUnit?_hexDigits h, bind, Option.bind_some, pure, if_neg hhigh,
    hscalar, Option.getD_some]

theorem readLow?_escapeUnit {n : Nat} (hlow : 0xDC00 ≤ n) (hhigh : n < 0xE000) (rest : List Char) :
    readLow? (escapeUnit n ++ rest) = some (n, rest) := by
  change (readUnit? (Text.hexDigits 4 n ++ rest)).filter _ = _
  rw [readUnit?_hexDigits (by omega)]
  simp [Option.filter, hlow, hhigh]

theorem readEscape?_pair {high low : Nat} (hhigh : 0xD800 ≤ high ∧ high < 0xDC00)
    (hlow : 0xDC00 ≤ low ∧ low < 0xE000) (rest : List Char) :
    readEscape? ('u' :: (Text.hexDigits 4 high ++ (escapeUnit low ++ rest))) =
      some (Char.ofNat (0x10000 + (high - 0xD800) * 1024 + (low - 0xDC00)), rest) := by
  simp only [readEscape?, readUnit?_hexDigits (show high < 0x10000 by omega), bind,
    Option.bind_some, pure, if_pos hhigh, readLow?_escapeUnit hlow.1 hlow.2]

theorem exists_pair {c : Char} (h : ¬ c.toNat < 0x10000) :
    ∃ high low, (0xD800 ≤ high ∧ high < 0xDC00) ∧ (0xDC00 ≤ low ∧ low < 0xE000) ∧
      0xD800 + (c.toNat - 0x10000) / 1024 = high ∧ 0xDC00 + (c.toNat - 0x10000) % 1024 = low ∧
      c = Char.ofNat (0x10000 + (high - 0xD800) * 1024 + (low - 0xDC00)) := by
  have hscalar := Utf8.toNat_scalar c
  refine ⟨_, _, ?_, ?_, rfl, rfl, ?_⟩
  · omega
  · omega
  · have hvalue : 0x10000 + (0xD800 + (c.toNat - 0x10000) / 1024 - 0xD800) * 1024 +
        (0xDC00 + (c.toNat - 0x10000) % 1024 - 0xDC00) = c.toNat := by omega
    rw [hvalue, Char.ofNat_toNat]

/-! ## Characters -/

theorem readString_backslash {c : Char} {cs rest : List Char} (h : readEscape? cs = some (c, rest))
    (fuel : Nat) :
    readString (fuel + 1) ('\\' :: cs) =
      (readString fuel rest).map fun (tail, rest) => (c :: tail, rest) := by
  rw [readString, if_neg (by decide), if_pos rfl]
  simp only [h]
  cases readString fuel rest <;> rfl

theorem readString_plain {c : Char} (hplain : ¬ (c = '"' ∨ c = '\\')) (hlow : 0x20 ≤ c.toNat)
    (fuel : Nat) (cs : List Char) :
    readString (fuel + 1) (c :: cs) =
      (readString fuel cs).map fun (tail, rest) => (c :: tail, rest) := by
  rw [not_or] at hplain
  rw [readString, if_neg hplain.1, if_neg hplain.2, if_neg (Nat.not_lt.mpr hlow)]
  cases readString fuel cs <;> rfl

theorem eq_of_toNat_eq {c d : Char} (h : c.toNat = d.toNat) : c = d := by
  rw [← Char.ofNat_toNat c, h, Char.ofNat_toNat]

theorem readString_escapeChar (fuel : Nat) (c : Char) (cs : List Char) :
    readString (fuel + 1) (escapeChar c ++ cs) =
      (readString fuel cs).map fun (tail, rest) => (c :: tail, rest) := by
  unfold escapeChar
  split_ifs with hmark hnewline hreturn htab hback hfeed hprinted hunit
  · rcases hmark with rfl | rfl <;> exact readString_backslash rfl fuel
  · exact hnewline ▸ readString_backslash rfl fuel
  · exact hreturn ▸ readString_backslash rfl fuel
  · exact htab ▸ readString_backslash rfl fuel
  · obtain rfl : c = '\x08' := eq_of_toNat_eq hback
    exact readString_backslash rfl fuel
  · obtain rfl : c = '\x0c' := eq_of_toNat_eq hfeed
    exact readString_backslash rfl fuel
  · exact readString_plain hmark hprinted.1 fuel cs
  · exact readString_backslash (readEscape?_unit hunit cs) fuel
  · obtain ⟨high, low, hhigh, hlow, heqHigh, heqLow, hc⟩ := exists_pair hunit
    dsimp only
    rw [heqHigh, heqLow, List.append_assoc]
    refine (readString_backslash (readEscape?_pair hhigh hlow cs) fuel).trans ?_
    rw [← hc]

theorem escapeChar_ne_nil (c : Char) : escapeChar c ≠ [] := by
  unfold escapeChar
  repeat' split
  all_goals simp [escapeUnit]

/-! ## Strings -/

theorem readString_flatMap_escapeChar {fuel : Nat} {cs : List Char} (hfuel : cs.length < fuel)
    (rest : List Char) :
    readString fuel (cs.flatMap escapeChar ++ '"' :: rest) = .ok (cs, rest) := by
  induction cs generalizing fuel with
  | nil =>
      obtain ⟨fuel, rfl⟩ := Nat.exists_eq_add_one_of_ne_zero (Nat.ne_zero_of_lt hfuel)
      rfl
  | cons c cs ih =>
      obtain ⟨fuel, rfl⟩ := Nat.exists_eq_add_one_of_ne_zero (Nat.ne_zero_of_lt hfuel)
      rw [List.flatMap_cons, List.append_assoc, readString_escapeChar,
        ih (Nat.lt_of_succ_lt_succ hfuel)]
      rfl

theorem length_le_flatMap_escapeChar (cs : List Char) :
    cs.length ≤ (cs.flatMap escapeChar).length := by
  induction cs with
  | nil => exact Nat.le_refl 0
  | cons c cs ih =>
      have hpos := List.length_pos_iff.mpr (escapeChar_ne_nil c)
      rw [List.flatMap_cons, List.length_append, List.length_cons]
      omega

def closing (s : String) : List Char := s.toList.flatMap escapeChar ++ ['"']

theorem stringChars_eq (s : String) : stringChars s = '"' :: closing s := rfl

theorem string_closing {fuel : Nat} {s : String} (hfuel : (closing s).length ≤ fuel)
    (rest : List Char) : string fuel (closing s ++ rest) = .ok (s, rest) := by
  have hlength := length_le_flatMap_escapeChar s.toList
  rw [closing, List.length_append, List.length_singleton] at hfuel
  rw [closing, List.append_assoc, List.singleton_append, string,
    readString_flatMap_escapeChar (by omega)]
  simp [bind, Except.bind]

end HdfsBrowser.Json
