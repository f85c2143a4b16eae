import HdfsBrowser.Json.Parser
import HdfsBrowser.Proofs.Number.Integer

/-!
# Numerals of JSON

A numeral is read by its parts: a whole part that does not begin with zero
unless it is zero, digits after a point, and a power.  It is read to its end,
and to no more than that when what follows does not go on with a numeral.
-/

namespace HdfsBrowser.Json

open Numeral (digits values valueOf)

/-! ## Digits -/

def Stops (rest : List Char) : Prop :=
  ∀ c ∈ rest.head?, c.isDigit = false ∧ c ≠ '.' ∧ c ≠ 'e' ∧ c ≠ 'E'

theorem stops_nil : Stops [] := by simp [Stops]

theorem stops_cons {c : Char} (h : c.isDigit = false ∧ c ≠ '.' ∧ c ≠ 'e' ∧ c ≠ 'E')
    (rest : List Char) : Stops (c :: rest) := by
  rintro c' hc
  obtain rfl := Option.some.inj hc
  exact h

theorem spanDigits_append {ds rest : List Char} (hds : ∀ c ∈ ds, c.isDigit = true)
    (hrest : ∀ c ∈ rest.head?, c.isDigit = false) :
    Decimal.spanDigits (ds ++ rest) = (values ds, rest) := by
  have htake : (ds ++ rest).takeWhile Char.isDigit = ds := by
    rw [List.takeWhile_append_of_pos hds]
    cases rest with
    | nil => simp
    | cons c rest => simp [hrest c rfl]
  have hdrop : (ds ++ rest).dropWhile Char.isDigit = rest := by
    rw [List.dropWhile_append_of_pos hds]
    cases rest with
    | nil => rfl
    | cons c rest => simp [hrest c rfl]
  rw [Decimal.spanDigits, htake, hdrop]
  rfl

structure IsWhole (cs : List Char) : Prop where
  digits : ∀ c ∈ cs, c.isDigit = true
  nonempty : cs ≠ []
  zero : cs.head? = some '0' → cs = ['0']

theorem isWhole_digits (n : Nat) : IsWhole (digits n) where
  digits _ := Numeral.isDigit_of_mem_digits
  nonempty := Numeral.digits_ne_nil n
  zero h := by
    rcases Nat.eq_zero_or_pos n with rfl | hn
    · rfl
    · exact absurd h (Numeral.head?_digits_ne hn)

theorem value_ne_zero_of_isDigit {c : Char} (hdigit : c.isDigit = true) (hc : c ≠ '0') :
    c.toNat - '0'.toNat ≠ 0 := by
  intro hzero
  obtain ⟨hlow, -⟩ := Text.bounds_of_isDigit hdigit
  change c.toNat - 48 = 0 at hzero
  apply hc
  rw [← Char.ofNat_toNat c, show c.toNat = 48 by omega]

theorem readWhole?_append {ws rest : List Char} (hws : IsWhole ws)
    (hrest : ∀ c ∈ rest.head?, c.isDigit = false) :
    readWhole? (ws ++ rest) = some (values ws, rest) := by
  have hspan := spanDigits_append hws.digits hrest
  cases ws with
  | nil => exact absurd rfl hws.nonempty
  | cons c cs =>
      have hvalues : values (c :: cs) = (c.toNat - '0'.toNat) :: values cs := rfl
      rw [readWhole?, hspan, hvalues]
      by_cases hzero : c = '0'
      · obtain rfl : cs = [] := (List.cons.inj (hws.zero (by rw [hzero]; rfl))).2
        rw [hzero]
        rfl
      · have hvalue := value_ne_zero_of_isDigit (hws.digits c List.mem_cons_self) hzero
        generalize c.toNat - '0'.toNat = d at hvalue
        cases d with
        | zero => exact absurd rfl hvalue
        | succ d => rfl

/-! ## Integers -/

theorem readPart?_of_stops {rest : List Char} (h : Stops rest) : readPart? rest = none := by
  unfold readPart?
  split
  · exact absurd rfl (h '.' rfl).2.1
  · rfl

theorem readPower?_of_stops {rest : List Char} (h : Stops rest) : readPower? rest = none := by
  unfold readPower?
  split
  · next c cs =>
      obtain ⟨-, -, hlower, hupper⟩ := h c rfl
      simp [hlower, hupper]
  · rfl

theorem unsigned_digits (negative : Bool) {n : Nat} (hn : n < tenTo Numeral.digitLimit)
    {rest : List Char} (h : Stops rest) :
    unsigned negative (digits n ++ rest) = .ok (.int (Numeral.signed negative n), rest) := by
  have hlength := (Numeral.length_values_digits_le_iff (by decide) n).mpr hn
  unfold unsigned
  rw [readWhole?_append (isWhole_digits n) fun c hc => (h c hc).1]
  simp only [readPart?_of_stops h, Option.map_none, Option.getD_none, readPower?_of_stops h,
    Option.isNone_none, Bool.and_self, ↓reduceIte, Numeral.valueOf_values_digits,
    if_neg (Nat.not_lt.mpr hlength)]

/-! ## Numerals with a point or a power -/

structure Parts where
  whole : List Char
  part : List Char
  power : Option (Bool × List Char)

namespace Parts

def partChars (part : List Char) : List Char := if part = [] then [] else '.' :: part

def powerChars : Option (Bool × List Char) → List Char
  | none => []
  | some (negative, ds) => 'e' :: (if negative then '-' else '+') :: ds

def chars (p : Parts) : List Char := p.whole ++ (partChars p.part ++ powerChars p.power)

def exponent (p : Parts) : Int :=
  (p.power.map fun (negative, ds) => Numeral.signed negative (valueOf (values ds))).getD 0

structure IsWritten (p : Parts) : Prop where
  whole : IsWhole p.whole
  part : ∀ c ∈ p.part, c.isDigit = true
  power : ∀ negative ds, p.power = some (negative, ds) → ds ≠ [] ∧ ∀ c ∈ ds, c.isDigit = true
  marked : p.part ≠ [] ∨ p.power ≠ none

theorem head?_powerChars (power : Option (Bool × List Char)) {rest : List Char} (h : Stops rest) :
    ∀ c ∈ (powerChars power ++ rest).head?, c.isDigit = false ∧ c ≠ '.' := by
  cases power with
  | none => exact fun c hc => ⟨(h c hc).1, (h c hc).2.1⟩
  | some power =>
      intro c hc
      obtain rfl := Option.some.inj hc
      decide

theorem readPart?_chars {part : List Char} (hpart : ∀ c ∈ part, c.isDigit = true)
    {rest : List Char} (hrest : ∀ c ∈ rest.head?, c.isDigit = false ∧ c ≠ '.') :
    readPart? (partChars part ++ rest) =
      if part = [] then none else some (values part, rest) := by
  unfold partChars
  split
  · rw [List.nil_append]
    unfold readPart?
    split
    · exact absurd rfl (hrest '.' rfl).2
    · rfl
  · next hne =>
      rw [List.cons_append, readPart?, spanDigits_append hpart fun c hc => (hrest c hc).1]
      cases hcs : part with
      | nil => exact absurd hcs hne
      | cons c cs => rfl

theorem readPower?_chars {negative : Bool} {ds : List Char} (hne : ds ≠ [])
    (hds : ∀ c ∈ ds, c.isDigit = true) {rest : List Char} (h : Stops rest) :
    readPower? (powerChars (some (negative, ds)) ++ rest) =
      some (Numeral.signed negative (valueOf (values ds)), rest) := by
  have hsign : Numeral.readSign ((if negative then '-' else '+') :: (ds ++ rest)) =
      (negative, ds ++ rest) := by
    cases negative <;> rfl
  change readPower? ('e' :: (if negative then '-' else '+') :: (ds ++ rest)) = _
  simp only [readPower?, hsign, spanDigits_append hds fun c hc => (h c hc).1, true_or, ↓reduceIte]
  cases hcs : ds with
  | nil => exact absurd hcs hne
  | cons c cs => rfl

/-- A numeral with a point or a power is the number nearest to its decimal. -/
theorem unsigned_chars {p : Parts} (hp : p.IsWritten) (negative : Bool) {rest : List Char}
    (h : Stops rest) :
    unsigned negative (p.chars ++ rest) =
      .ok (.float (.ofDecimal negative (valueOf (values (p.whole ++ p.part)))
        (p.exponent - p.part.length)), rest) := by
  have hpower := head?_powerChars p.power h
  have hpart : ∀ c ∈ (partChars p.part ++ (powerChars p.power ++ rest)).head?,
      c.isDigit = false := by
    unfold partChars
    split
    · exact fun c hc => (hpower c hc).1
    · rintro c hc
      obtain rfl := Option.some.inj hc
      decide
  have hread : readPower? (powerChars p.power ++ rest) =
      p.power.map fun (negative, ds) => (Numeral.signed negative (valueOf (values ds)), rest) := by
    cases hcase : p.power with
    | none => exact readPower?_of_stops h
    | some power =>
        obtain ⟨sign, ds⟩ := power
        obtain ⟨hne, hds⟩ := hp.power sign ds hcase
        exact readPower?_chars hne hds h
  unfold unsigned chars
  rw [List.append_assoc, List.append_assoc, readWhole?_append hp.whole hpart]
  simp only [readPart?_chars hp.part hpower]
  have hvalues : values p.part = [] ↔ p.part = [] := List.map_eq_nil_iff
  unfold exponent
  rcases hp.marked with hmarked | hmarked
  · simp only [hmarked, ↓reduceIte, Option.map_some, Option.getD_some, hread,
      Option.isNone_some, Bool.false_and, Bool.false_eq_true, Numeral.values_append]
    cases p.power with
    | none => simp [values, powerChars]
    | some power => simp [values]
  · obtain ⟨⟨sign, ds⟩, hcase⟩ := Option.ne_none_iff_exists'.mp hmarked
    rw [hcase] at hread ⊢
    by_cases hempty : p.part = []
    · simp [hempty, partChars, hread, values]
    · simp [hempty, hread, values]

end Parts

end HdfsBrowser.Json
