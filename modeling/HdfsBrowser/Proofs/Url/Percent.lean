import HdfsBrowser.Proofs.Text.Utf8
import HdfsBrowser.Url.Percent
import Mathlib.Tactic.SplitIfs

/-!
# Escapes

Percent encoding leaves the bytes that a text stands for as they are, as long
as the percent sign and the hexadecimal digits are safe.  A text without
escapes stands for its own UTF-8 form; one with escapes stands for fewer
characters than it has.
-/

namespace HdfsBrowser.Percent

def isHex (c : Char) : Bool := (Text.hexDigit? c).isSome

def startsHex : List Char → Bool
  | a :: b :: _ => isHex a && isHex b
  | _ => false

def hasEscape : List Char → Bool
  | [] => false
  | c :: rest => (c == '%' && startsHex rest) || hasEscape rest

/-! ## Kinds of characters -/

theorem isAlphanum_iff_toNat (c : Char) : c.isAlphanum = true ↔
    (0x30 ≤ c.toNat ∧ c.toNat ≤ 0x39) ∨ (0x41 ≤ c.toNat ∧ c.toNat ≤ 0x5A) ∨
      (0x61 ≤ c.toNat ∧ c.toNat ≤ 0x7A) := by
  have hupper : c.isUpper = true ↔ 0x41 ≤ c.toNat ∧ c.toNat ≤ 0x5A := decide_eq_true_iff
  have hlower : c.isLower = true ↔ 0x61 ≤ c.toNat ∧ c.toNat ≤ 0x7A := by
    rw [show c.isLower = (decide (0x61 ≤ c.toNat) && decide (c.toNat ≤ 0x7A)) from rfl]
    simp
  have hdigit : c.isDigit = true ↔ 0x30 ≤ c.toNat ∧ c.toNat ≤ 0x39 := Char.isDigit_iff_toNat
  have hkinds : c.isAlphanum = ((c.isUpper || c.isLower) || c.isDigit) := rfl
  rw [hkinds, Bool.or_eq_true, Bool.or_eq_true, hupper, hlower, hdigit]
  omega

theorem visibleExcept_iff (excluded : List Char) (c : Char) :
    visibleExcept excluded c = true ↔ 0x20 < c.toNat ∧ c.toNat < 0x7F ∧ c ∉ excluded := by
  simp [visibleExcept, and_assoc]

theorem visibleExcept_of_unreserved {excluded : List Char} {c : Char}
    (hexcluded : excluded.any unreserved = false) (h : unreserved c = true) :
    visibleExcept excluded c = true := by
  have hbounds : 0x20 < c.toNat ∧ c.toNat < 0x7F := by
    simp only [unreserved, Bool.or_eq_true, isAlphanum_iff_toNat, beq_iff_eq] at h
    rcases h with (((h | rfl) | rfl) | rfl) | rfl
    · omega
    all_goals decide
  have hmem : c ∉ excluded := fun hmem => List.any_eq_false.mp hexcluded c hmem h
  exact (visibleExcept_iff excluded c).mpr ⟨hbounds.1, hbounds.2, hmem⟩

theorem unreserved_of_isHex {c : Char} (h : isHex c = true) : unreserved c = true := by
  have halphanum : c.isAlphanum = true := by
    rw [isAlphanum_iff_toNat]
    simp only [isHex, Text.hexDigit?, Char.le_def, UInt32.le_iff_toNat_le, Char.toNat_val,
      Char.reduceToNat] at h
    split_ifs at h with hdecimal hlower hupper
    · omega
    · omega
    · omega
    · cases h
  simp [unreserved, halphanum]

/-! ## Reading step by step -/

@[simp] theorem decode_nil : decode [] = [] := by rw [decode]

theorem decode_cons_of_ne {c : Char} (h : c ≠ '%') (rest : List Char) :
    decode (c :: rest) = Utf8.encodeChar c ++ decode rest := by
  rw [decode]
  intro a b cs hc
  exact absurd hc h

theorem decode_percent_of_not_startsHex {rest : List Char} (h : startsHex rest = false) :
    decode ('%' :: rest) = Utf8.encodeChar '%' ++ decode rest := by
  match rest with
  | [] => simp [decode]
  | [a] =>
      rw [decode]
      · intro x y rest _ hrest
        cases hrest
  | a :: b :: rest =>
      rw [decode]
      cases ha : Text.hexDigit? a with
      | none => rfl
      | some high =>
          cases hb : Text.hexDigit? b with
          | none => rfl
          | some low => simp [startsHex, isHex, ha, hb] at h

theorem decode_cons {c : Char} {rest : List Char} (h : (c == '%' && startsHex rest) = false) :
    decode (c :: rest) = Utf8.encodeChar c ++ decode rest := by
  by_cases hc : c = '%'
  · subst hc
    exact decode_percent_of_not_startsHex (by simpa using h)
  · exact decode_cons_of_ne hc rest

theorem decode_escape {a b : Char} {high low : Nat} (ha : Text.hexDigit? a = some high)
    (hb : Text.hexDigit? b = some low) (rest : List Char) :
    decode ('%' :: a :: b :: rest) = UInt8.ofNat (high * 16 + low) :: decode rest := by
  rw [decode, ha, hb]

theorem cases_escape (cs : List Char) :
    cs = [] ∨
      (∃ a b rest, cs = '%' :: a :: b :: rest ∧ isHex a = true ∧ isHex b = true) ∨
      ∃ c rest, cs = c :: rest ∧ (c == '%' && startsHex rest) = false := by
  cases cs with
  | nil => exact .inl rfl
  | cons c rest =>
      cases hescape : c == '%' && startsHex rest with
      | false => exact .inr (.inr ⟨c, rest, rfl, hescape⟩)
      | true =>
          obtain ⟨hc, hrest⟩ := Bool.and_eq_true_iff.mp hescape
          obtain rfl : c = '%' := by simpa using hc
          match rest, hrest with
          | a :: b :: rest, hrest =>
              obtain ⟨ha, hb⟩ := Bool.and_eq_true_iff.mp hrest
              exact .inr (.inl ⟨a, b, rest, rfl, ha, hb⟩)

/-! ## Escapes that were written -/

theorem hexDigit?_digit {n : Nat} (h : n < 16) : Text.hexDigit? (digit n) = some n := by
  revert n
  decide

@[simp] theorem decode_byte_append (b : UInt8) (rest : List Char) :
    decode (byte b ++ rest) = b :: decode rest := by
  have hb : b.toNat < 256 := b.toNat_lt
  have hhigh : b.toNat / 16 < 16 := by omega
  have hlow : b.toNat % 16 < 16 := by omega
  have hvalue : b.toNat / 16 * 16 + b.toNat % 16 = b.toNat := by omega
  simp only [byte, List.cons_append, List.nil_append]
  rw [decode_escape (hexDigit?_digit hhigh) (hexDigit?_digit hlow), hvalue, UInt8.ofNat_toNat]

theorem decode_flatMap_byte_append (bs : Bytes) (rest : List Char) :
    decode (bs.flatMap byte ++ rest) = bs ++ decode rest := by
  induction bs with
  | nil => rfl
  | cons b bs ih =>
      rw [List.flatMap_cons, List.append_assoc, decode_byte_append, ih]
      rfl

def IsEscapeChar (c : Char) : Prop := c = '%' ∨ ∃ n < 16, c = digit n

instance (c : Char) : Decidable (IsEscapeChar c) :=
  inferInstanceAs (Decidable (c = '%' ∨ ∃ n < 16, c = digit n))

theorem isEscapeChar_of_mem_byte {b : UInt8} {c : Char} (h : c ∈ byte b) : IsEscapeChar c := by
  have hb : b.toNat < 256 := b.toNat_lt
  simp only [byte, List.mem_cons, List.not_mem_nil, or_false] at h
  rcases h with rfl | rfl | rfl
  · exact .inl rfl
  · exact .inr ⟨_, by omega, rfl⟩
  · exact .inr ⟨_, by omega, rfl⟩

theorem unreserved_digit {n : Nat} (h : n < 16) : unreserved (digit n) = true := by
  revert n
  decide

theorem mem_encodeChar {safe : Char → Bool} {c d : Char} (h : d ∈ encodeChar safe c) :
    (d = c ∧ safe c = true) ∨ IsEscapeChar d := by
  unfold encodeChar at h
  split at h
  · next hsafe => exact .inl ⟨List.mem_singleton.mp h, hsafe⟩
  · obtain ⟨b, -, hb⟩ := List.mem_flatMap.mp h
    exact .inr (isEscapeChar_of_mem_byte hb)

theorem mem_encode {safe : Char → Bool} {cs : List Char} {d : Char} (h : d ∈ encode safe cs) :
    (d ∈ cs ∧ safe d = true) ∨ IsEscapeChar d := by
  obtain ⟨c, hc, hd⟩ := List.mem_flatMap.mp h
  rcases mem_encodeChar hd with ⟨rfl, hsafe⟩ | hescape
  · exact .inl ⟨hc, hsafe⟩
  · exact .inr hescape

@[simp] theorem encode_nil (safe : Char → Bool) : encode safe [] = [] := rfl

theorem encode_cons (safe : Char → Bool) (c : Char) (cs : List Char) :
    encode safe (c :: cs) = encodeChar safe c ++ encode safe cs := rfl

theorem encode_cons_of_safe {safe : Char → Bool} {c : Char} (h : safe c = true)
    (cs : List Char) : encode safe (c :: cs) = c :: encode safe cs := by
  rw [encode_cons, encodeChar, if_pos h]
  rfl

theorem encode_of_safe {safe : Char → Bool} {cs : List Char} (h : ∀ c ∈ cs, safe c = true) :
    encode safe cs = cs := by
  induction cs with
  | nil => rfl
  | cons c cs ih =>
      obtain ⟨hc, hcs⟩ := List.forall_mem_cons.mp h
      rw [encode_cons_of_safe hc, ih hcs]

/-! ## Escapes that were there -/

structure KeepsEscapes (safe : Char → Bool) : Prop where
  percent : safe '%' = true
  hex : ∀ c, isHex c = true → safe c = true

theorem encodeChar_of_not_safe {safe : Char → Bool} {c : Char} (h : ¬ safe c = true) :
    ∃ rest, encodeChar safe c = '%' :: rest := by
  rw [encodeChar, if_neg h]
  cases hbytes : Utf8.encodeChar c with
  | nil =>
      have := Utf8.pieces_encodeChar_append c []
      simp [hbytes] at this
  | cons b bs => exact ⟨_, rfl⟩

theorem startsHex_percent (rest : List Char) : startsHex ('%' :: rest) = false := by
  cases rest with
  | nil => rfl
  | cons c rest =>
      have hpercent : isHex '%' = false := by decide
      simp [startsHex, hpercent]

theorem startsHex_cons_of_not_isHex {a : Char} (h : isHex a = false) (rest : List Char) :
    startsHex (a :: rest) = false := by
  cases rest with
  | nil => rfl
  | cons b rest => simp [startsHex, h]

theorem startsHex_encode {safe : Char → Bool} (hsafe : KeepsEscapes safe) (cs : List Char) :
    startsHex (encode safe cs) = startsHex cs := by
  have hother : ∀ c, ¬ safe c = true → isHex c = false := fun c hc =>
    Bool.eq_false_iff.mpr fun hhex => hc (hsafe.hex c hhex)
  match cs with
  | [] => rfl
  | [a] =>
      by_cases ha : safe a
      · rw [encode_cons_of_safe ha, encode_nil]
      · obtain ⟨rest, hrest⟩ := encodeChar_of_not_safe ha
        rw [encode_cons, hrest, List.cons_append, startsHex_percent]
        rfl
  | a :: b :: cs =>
      by_cases ha : safe a
      · rw [encode_cons_of_safe ha]
        by_cases hb : safe b
        · rw [encode_cons_of_safe hb]
          rfl
        · obtain ⟨rest, hrest⟩ := encodeChar_of_not_safe hb
          have hpercent : isHex '%' = false := by decide
          rw [encode_cons, hrest, List.cons_append]
          simp [startsHex, hother b hb, hpercent]
      · obtain ⟨rest, hrest⟩ := encodeChar_of_not_safe ha
        rw [encode_cons, hrest, List.cons_append, startsHex_percent,
          startsHex_cons_of_not_isHex (hother a ha)]

theorem decode_encodeChar_append {safe : Char → Bool} {c : Char} {rest : List Char}
    (h : safe c = true → (c == '%' && startsHex rest) = false) :
    decode (encodeChar safe c ++ rest) = Utf8.encodeChar c ++ decode rest := by
  by_cases hc : safe c
  · rw [encodeChar, if_pos hc]
    exact decode_cons (h hc)
  · rw [encodeChar, if_neg hc, decode_flatMap_byte_append]

theorem decode_encode {safe : Char → Bool} (hsafe : KeepsEscapes safe) (cs : List Char) :
    decode (encode safe cs) = decode cs := by
  induction hlength : cs.length using Nat.strongRecOn generalizing cs with
  | ind n ih =>
      rcases cases_escape cs with rfl | ⟨a, b, rest, rfl, ha, hb⟩ | ⟨c, rest, rfl, hplain⟩
      · rfl
      · have hrest := ih rest.length (by simp at hlength; omega) rest rfl
        rw [encode_cons_of_safe hsafe.percent, encode_cons_of_safe (hsafe.hex a ha),
          encode_cons_of_safe (hsafe.hex b hb)]
        obtain ⟨high, hhigh⟩ := Option.isSome_iff_exists.mp ha
        obtain ⟨low, hlow⟩ := Option.isSome_iff_exists.mp hb
        rw [decode_escape hhigh hlow, decode_escape hhigh hlow, hrest]
      · have hrest := ih rest.length (by simp at hlength; omega) rest rfl
        have hkept : (c == '%' && startsHex (encode safe rest)) = false := by
          rwa [startsHex_encode hsafe]
        rw [encode_cons, decode_encodeChar_append fun _ => hkept, hrest, decode_cons hplain]

/-! ## Texts without escapes -/

theorem decode_of_not_hasEscape {cs : List Char} (h : hasEscape cs = false) :
    decode cs = cs.flatMap Utf8.encodeChar := by
  induction cs with
  | nil => exact decode_nil
  | cons c cs ih =>
      obtain ⟨hplain, hrest⟩ := Bool.or_eq_false_iff.mp h
      rw [decode_cons hplain, ih hrest, List.flatMap_cons]

theorem hasEscape_append {cs : List Char} (h : '%' ∉ cs) (rest : List Char) :
    hasEscape (cs ++ rest) = hasEscape rest := by
  induction cs with
  | nil => rfl
  | cons c cs ih =>
      rw [List.mem_cons, not_or] at h
      have hc : (c == '%') = false := by simpa using Ne.symm h.1
      rw [List.cons_append, hasEscape, hc, Bool.false_and, Bool.false_or, ih h.2]

/-- A text stands for at most as many characters as it has, and for fewer when it has escapes. -/
theorem length_pieces_decode (cs : List Char) :
    (Utf8.pieces (decode cs)).length + (hasEscape cs).toNat ≤ cs.length := by
  induction hlength : cs.length using Nat.strongRecOn generalizing cs with
  | ind n ih =>
      subst hlength
      rcases cases_escape cs with rfl | ⟨a, b, rest, rfl, ha, hb⟩ | ⟨c, rest, rfl, hplain⟩
      · simp [hasEscape]
      · have hrest := ih rest.length (by simp; omega) rest rfl
        obtain ⟨high, hhigh⟩ := Option.isSome_iff_exists.mp ha
        obtain ⟨low, hlow⟩ := Option.isSome_iff_exists.mp hb
        rw [decode_escape hhigh hlow]
        have hbyte := Utf8.length_pieces_cons_le (UInt8.ofNat (high * 16 + low)) (decode rest)
        have hone := Bool.toNat_le (hasEscape ('%' :: a :: b :: rest))
        simp only [List.length_cons]
        omega
      · have hrest := ih rest.length (by simp) rest rfl
        have hescape : hasEscape (c :: rest) = hasEscape rest := by
          rw [hasEscape, hplain, Bool.false_or]
        rw [decode_cons hplain, Utf8.pieces_encodeChar_append, hescape]
        simp only [List.length_cons]
        omega

end HdfsBrowser.Percent
