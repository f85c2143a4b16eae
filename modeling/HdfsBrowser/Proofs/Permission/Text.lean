import HdfsBrowser.Proofs.Permission.Number
import Mathlib.Data.List.Induction

/-!
# Permissions given as texts

A text is checked character by character before it is read as a number.  The
check takes the digits of every script and the characters that only look like
digits, and it knows 8 and 9 of ASCII only.  Three kinds of texts slip through:
those with a digit that forms no number, those with more digits than are
converted, and those with an 8 or a 9 of another script.  Every other text is
refused, or it becomes octal digits of ASCII for the same number.
-/

namespace HdfsBrowser

namespace Text

def spaces : List Nat :=
  [0x9, 0xA, 0xB, 0xC, 0xD, 0x20, 0x85, 0xA0, 0x1680, 0x2000, 0x2001, 0x2002, 0x2003, 0x2004,
   0x2005, 0x2006, 0x2007, 0x2008, 0x2009, 0x200A, 0x2028, 0x2029, 0x202F, 0x205F, 0x3000]

theorem mem_spaces_of_isSpace {c : Char} (h : isSpace c = true) : c.toNat ∈ spaces := by
  simp only [isSpace, Bool.or_eq_true, Bool.and_eq_true, decide_eq_true_eq, beq_iff_eq] at h
  simp only [spaces, List.mem_cons, List.not_mem_nil, or_false]
  omega

theorem isSpace_eq_false {c : Char} (h : isDigit c = true) : isSpace c = false := by
  have hnone : ∀ n ∈ spaces, isDigit (Char.ofNat n) = false := by decide
  by_contra hspace
  rw [Bool.not_eq_false] at hspace
  have hdigit := hnone c.toNat (mem_spaces_of_isSpace hspace)
  rw [Char.ofNat_toNat, h] at hdigit
  cases hdigit

end Text

namespace Numeral

def decimals (cs : List Char) : List Nat := cs.filterMap Text.decimalDigit?

structure IsReadable (cs : List Char) : Prop where
  decimal : ∀ c ∈ cs, (Text.decimalDigit? c).isSome
  length_le : cs.length ≤ digitLimit

variable {cs : List Char}

theorem lt_of_mem_decimals {d : Nat} (h : d ∈ decimals cs) : d < 10 := by
  obtain ⟨c, -, hc⟩ := List.mem_filterMap.mp h
  exact Text.lt_of_decimalDigit? hc

theorem length_decimals (h : ∀ c ∈ cs, (Text.decimalDigit? c).isSome) :
    (decimals cs).length = cs.length := by
  induction cs with
  | nil => rfl
  | cons c cs ih =>
      obtain ⟨hc, hcs⟩ := List.forall_mem_cons.mp h
      obtain ⟨d, hd⟩ := Option.isSome_iff_exists.mp hc
      rw [decimals, List.filterMap_cons_some hd, List.length_cons, List.length_cons]
      exact congrArg (· + 1) (ih hcs)

theorem readDigits_of_decimal (h : ∀ c ∈ cs, (Text.decimalDigit? c).isSome) {owed : Bool}
    (howed : owed = true → cs ≠ []) : readDigits owed cs = some (decimals cs, []) := by
  induction cs generalizing owed with
  | nil =>
      cases owed with
      | false => rfl
      | true => exact absurd rfl (howed rfl)
  | cons c cs ih =>
      obtain ⟨hc, hcs⟩ := List.forall_mem_cons.mp h
      obtain ⟨d, hd⟩ := Option.isSome_iff_exists.mp hc
      simp [readDigits, hd, ih hcs, decimals]

theorem readDigits_of_not_decimal (hbar : '_' ∉ cs) {c : Char} (hmem : c ∈ cs)
    (hc : Text.decimalDigit? c = none) (owed : Bool) :
    readDigits owed cs = none ∨ ∃ ds rest, readDigits owed cs = some (ds, rest) ∧ rest ≠ [] := by
  induction cs generalizing owed with
  | nil => cases hmem
  | cons first cs ih =>
      rw [List.mem_cons, not_or] at hbar
      obtain ⟨hfirst, hcs⟩ := hbar
      cases hd : Text.decimalDigit? first with
      | some d =>
          have hne : c ≠ first := fun heq => by simp [← heq, hc] at hd
          have hlater : c ∈ cs := (List.mem_cons.mp hmem).resolve_left hne
          rcases ih hcs hlater false with hnone | ⟨ds, rest, hread, hrest⟩
          · exact .inl (by simp [readDigits, hd, hnone])
          · exact .inr ⟨d :: ds, rest, by simp [readDigits, hd, hread], hrest⟩
      | none =>
          cases owed with
          | true => exact .inl (by simp [readDigits, hd])
          | false =>
              refine .inr ⟨[], first :: cs, ?_, List.cons_ne_nil _ _⟩
              simp [readDigits, hd, Ne.symm hfirst]

section

variable (hne : cs ≠ []) (hdigits : ∀ c ∈ cs, Text.isDigit c = true)
include hdigits

theorem readSign_of_isDigit : readSign cs = (false, cs) := by
  unfold readSign
  split
  · exact absurd (hdigits '+' List.mem_cons_self) (by decide)
  · exact absurd (hdigits '-' List.mem_cons_self) (by decide)
  · rfl

theorem read_eq_of_isDigit :
    read (String.ofList cs) =
      match readDigits true cs with
      | none => .error (.malformed (String.ofList cs))
      | some (ds, rest) =>
        if ds.length > digitLimit then .error (.tooLong (some ds.length))
        else if rest.isEmpty then .ok (valueOf ds)
        else .error (.malformed (String.ofList cs)) := by
  have htrim : Text.trimBy Text.isSpace cs = cs :=
    Text.trimBy_of_forall fun c hc => Text.isSpace_eq_false (hdigits c hc)
  unfold read
  rw [String.toList_ofList, htrim, readSign_of_isDigit hdigits]
  rfl

include hne

theorem read_of_isReadable (h : IsReadable cs) :
    read (String.ofList cs) = .ok (valueOf (decimals cs)) := by
  rw [read_eq_of_isDigit hdigits, readDigits_of_decimal h.decimal fun _ => hne]
  have hlength : ¬ (decimals cs).length > digitLimit := by
    rw [length_decimals h.decimal]
    exact Nat.not_lt.mpr h.length_le
  simp only [if_neg hlength, List.isEmpty_nil, ↓reduceIte]

theorem read_of_not_isReadable (h : ¬ IsReadable cs) :
    ∃ why, read (String.ofList cs) = .error why := by
  rw [read_eq_of_isDigit hdigits]
  by_cases hdecimal : ∀ c ∈ cs, (Text.decimalDigit? c).isSome
  · have hlong : (decimals cs).length > digitLimit := by
      rw [length_decimals hdecimal]
      exact Nat.lt_of_not_le fun hle => h ⟨hdecimal, hle⟩
    rw [readDigits_of_decimal hdecimal fun _ => hne]
    exact ⟨_, if_pos hlong⟩
  · push Not at hdecimal
    obtain ⟨c, hmem, hc⟩ := hdecimal
    have hbar : '_' ∉ cs := fun hmem => absurd (hdigits '_' hmem) (by decide)
    rcases readDigits_of_not_decimal hbar hmem (by simpa using hc) true with
      hnone | ⟨ds, rest, hread, hrest⟩
    · exact ⟨_, by rw [hnone]⟩
    · rw [hread]
      dsimp only
      split
      · exact ⟨_, rfl⟩
      · rw [if_neg (by simpa using hrest)]
        exact ⟨_, rfl⟩

end

theorem valueOf_concat (ds : List Nat) (d : Nat) :
    valueOf (ds ++ [d]) = valueOf ds * 10 + d := by
  simp [valueOf]

end Numeral

namespace Permission

open Numeral (digits decimals valueOf)

/-! ## Digits of a value -/

theorem hasLargeDigit_append {n d : Nat} (hd : d < 10) :
    hasLargeDigit (n * 10 + d) = (hasLargeDigit n || decide (8 ≤ d)) := by
  have hlast : ∀ d, d < 10 → (d.digitChar == '8' || d.digitChar == '9') = decide (8 ≤ d) := by
    decide
  have hmod : (n * 10 + d) % 10 = d := by omega
  have hdiv : (n * 10 + d) / 10 = n := by omega
  unfold hasLargeDigit digits
  rw [Nat.toDigits_eq_if (by decide), hmod, hdiv]
  split
  · next hsmall =>
      obtain rfl : n = 0 := by omega
      have hzero : (Nat.toDigits 10 0).any (fun c => c == '8' || c == '9') = false := by decide
      rw [hzero, Bool.false_or, List.any_cons, List.any_nil, Bool.or_false, ← hlast d hd]
      simp
  · rw [List.any_append, List.any_cons, List.any_nil, Bool.or_false, hlast d hd]

theorem hasLargeDigit_valueOf {ds : List Nat} (h : ∀ d ∈ ds, d < 10) :
    hasLargeDigit (valueOf ds) = ds.any (8 ≤ ·) := by
  induction ds using List.reverseRec with
  | nil => decide
  | append_singleton ds d ih =>
      rw [Numeral.valueOf_concat, hasLargeDigit_append (h d (by simp)),
        ih fun d hd => h d (List.mem_append_left _ hd), List.any_append, List.any_cons,
        List.any_nil, Bool.or_false]

theorem hasTriads_iff {n : Nat} (h : n ≤ maxBits) :
    hasTriads n = true ↔ hasLargeDigit n = false := by
  refine ⟨fun htriads => ?_, hasTriads_of_not_hasLargeDigit⟩
  simp only [hasTriads, Bool.and_eq_true, decide_eq_true_eq] at htriads
  obtain ⟨⟨hother, hgroup⟩, howner⟩ := htriads
  have hbound : n / 10 / 10 / 10 < 8 := by
    unfold maxBits at h
    omega
  -- The fourth digit has no triad, but the bound keeps it below 8.
  have hfirst : ∀ k, k < 8 → hasLargeDigit k = false := by decide
  have hsplit (k : Nat) : k = k / 10 * 10 + k % 10 := by omega
  have hstep {k : Nat} (hlast : k % 10 < 8) (hrest : hasLargeDigit (k / 10) = false) :
      hasLargeDigit k = false := by
    rw [hsplit k, hasLargeDigit_append (Nat.mod_lt k (by decide)), hrest]
    simpa using hlast
  exact hstep hother (hstep hgroup (hstep (by omega) (hfirst _ hbound)))

/-! ## Octal digits -/

structure IsOctal (text : String) (bits : Nat) : Prop where
  length : text.toList.length = 3 ∨ text.toList.length = 4
  octal : ∀ c ∈ text.toList, c ∈ ['0', '1', '2', '3', '4', '5', '6', '7']
  value : valueOf (Numeral.values text.toList) = bits

theorem toList_format (bits : Nat) :
    (format bits).toList = List.replicate (3 - (digits bits).length) '0' ++ digits bits := by
  have hsign : ¬ ((bits : Int) < 0) := by omega
  simp [format, Numeral.padded, hsign]

theorem mem_octal {c : Char} (h : c.isDigit = true) (height : c ≠ '8') (hnine : c ≠ '9') :
    c ∈ ['0', '1', '2', '3', '4', '5', '6', '7'] := by
  obtain ⟨hlow, hhigh⟩ := Text.bounds_of_isDigit h
  have hcode : ∀ n < 58, 48 ≤ n →
      Char.ofNat n ∈ ['0', '1', '2', '3', '4', '5', '6', '7'] ++ ['8', '9'] := by
    decide
  have hmem := hcode c.toNat (Nat.lt_succ_of_le hhigh) hlow
  rw [Char.ofNat_toNat, List.mem_append] at hmem
  exact hmem.resolve_right (by simp [height, hnine])

theorem not_hasLargeDigit_iff {n : Nat} :
    hasLargeDigit n = false ↔ ∀ c ∈ digits n, c ≠ '8' ∧ c ≠ '9' := by
  simp [hasLargeDigit]

theorem valueOf_zeros (k : Nat) (ds : List Nat) :
    valueOf (List.replicate k 0 ++ ds) = valueOf ds := by
  have hzero : (List.replicate k 0).foldl (fun n d => n * 10 + d) 0 = 0 := by
    induction k with
    | zero => rfl
    | succ k ih => simpa [List.replicate_succ] using ih
  unfold valueOf
  rw [List.foldl_append, hzero]

theorem not_hasLargeDigit_of_isOctal {bits n : Nat} (h : IsOctal (format bits) n) :
    hasLargeDigit bits = false := by
  rw [not_hasLargeDigit_iff]
  intro c hc
  have hmem := h.octal c (by rw [toList_format]; exact List.mem_append_right _ hc)
  constructor
  · rintro rfl
    exact absurd hmem (by decide)
  · rintro rfl
    exact absurd hmem (by decide)

theorem isOctal_format {bits : Nat} (hrange : bits ≤ maxBits)
    (hsmall : hasLargeDigit bits = false) : IsOctal (format bits) bits := by
  rw [not_hasLargeDigit_iff] at hsmall
  have hbound : bits < tenTo 4 := Nat.lt_of_le_of_lt hrange (by decide)
  have hlength := (Numeral.length_values_digits_le_iff (by decide) bits).mpr hbound
  rw [Numeral.values, List.length_map] at hlength
  refine ⟨?_, fun c hc => ?_, ?_⟩
  · rw [toList_format, List.length_append, List.length_replicate]
    omega
  · rw [toList_format, List.mem_append] at hc
    rcases hc with hzero | hdigit
    · rw [List.eq_of_mem_replicate hzero]
      decide
    · obtain ⟨height, hnine⟩ := hsmall c hdigit
      exact mem_octal (Numeral.isDigit_of_mem_digits hdigit) height hnine
  · have hvalues (cs ds : List Char) :
        Numeral.values (cs ++ ds) = Numeral.values cs ++ Numeral.values ds := List.map_append
    have hzeros (k : Nat) : Numeral.values (List.replicate k '0') = List.replicate k 0 :=
      List.map_replicate
    rw [toList_format, hvalues, hzeros, valueOf_zeros, Numeral.valueOf_values_digits]

/-! ## The check of the characters -/

structure Passes (cs : List Char) : Prop where
  nonempty : cs ≠ []
  digits : ∀ c ∈ cs, Text.isDigit c = true
  octal : ∀ c ∈ cs, c ≠ '8' ∧ c ≠ '9'

def core (shown : String) : List Char := Text.trimBy Text.isBlank shown.toList

section

variable {given : Value} {shown : String} (hshown : given.asText = .ok shown)
include hshown

theorem parse_of_not_passes (h : ¬ Passes (core shown)) :
    ∃ why, parse given = .error (.rejected why) := by
  unfold parse
  simp only [hshown, bind, Except.bind]
  split
  · exact ⟨_, rfl⟩
  · next hdigits =>
      split
      · exact ⟨_, rfl⟩
      · next hoctal =>
          refine absurd ⟨?_, ?_, ?_⟩ h
          · intro hempty
            simp [show Text.trimBy Text.isBlank shown.toList = [] from hempty] at hdigits
          · simp only [Bool.or_eq_true, not_or, Bool.not_eq_true', Bool.not_eq_false] at hdigits
            exact List.all_eq_true.mp hdigits.2
          · intro c hc
            simp only [Bool.not_eq_true, List.any_eq_false, Bool.or_eq_true, beq_iff_eq,
              not_or] at hoctal
            exact hoctal c hc

theorem parse_of_passes (h : Passes (core shown)) :
    parse given =
      match Numeral.read (String.ofList (core shown)) with
      | .error why => .error (.numeral why)
      | .ok bits =>
        if (maxBits : Int) < bits then .error (.rejected (.bitsRange shown))
        else .ok bits.toNat := by
  have hdigits : ((core shown).isEmpty || !(core shown).all Text.isDigit) = false := by
    rw [Bool.or_eq_false_iff, Bool.not_eq_false', List.all_eq_true]
    exact ⟨by simpa using h.nonempty, h.digits⟩
  have hoctal : (core shown).any (fun c => c == '8' || c == '9') = false := by
    rw [List.any_eq_false]
    simpa using h.octal
  unfold parse
  simp only [hshown, bind, Except.bind]
  rw [show Text.trimBy Text.isBlank shown.toList = core shown from rfl, hdigits, hoctal]
  simp only [Bool.false_eq_true, ↓reduceIte]
  cases Numeral.read (String.ofList (core shown)) <;> rfl

end

/-! ## Texts that slip through -/

/-- A text that passes the check although it is no octal number of ASCII digits: a digit of it
forms no number, there are too many digits, or a digit of another script is not octal. -/
inductive Slips (cs : List Char) : Prop
  | unreadable (hpasses : Passes cs) (hunreadable : ¬ Numeral.IsReadable cs)
  | large {d : Nat} (hpasses : Passes cs) (hreadable : Numeral.IsReadable cs)
      (hrange : valueOf (decimals cs) ≤ maxBits) (hd : d ∈ decimals cs) (hlarge : 8 ≤ d)

section

variable {given : Value} {shown : String} (hshown : given.asText = .ok shown)
include hshown

theorem parse_of_isReadable (hpasses : Passes (core shown))
    (hreadable : Numeral.IsReadable (core shown)) :
    parse given =
      if maxBits < valueOf (decimals (core shown)) then .error (.rejected (.bitsRange shown))
      else .ok (valueOf (decimals (core shown))) := by
  rw [parse_of_passes hshown hpasses,
    Numeral.read_of_isReadable hpasses.nonempty hpasses.digits hreadable]
  simp only [Int.ofNat_lt, Int.toNat_natCast]

theorem parse_of_slips (h : Slips (core shown)) :
    (∃ why, parse given = .error (.numeral why)) ∨
      ∃ bits, parse given = .ok bits ∧ bits ≤ maxBits ∧ hasLargeDigit bits = true := by
  cases h with
  | unreadable hpasses hunreadable =>
      obtain ⟨why, hwhy⟩ :=
        Numeral.read_of_not_isReadable hpasses.nonempty hpasses.digits hunreadable
      exact .inl ⟨why, by rw [parse_of_passes hshown hpasses, hwhy]⟩
  | @large d hpasses hreadable hrange hd hlarge =>
      refine .inr ⟨valueOf (decimals (core shown)), ?_, hrange, ?_⟩
      · rw [parse_of_isReadable hshown hpasses hreadable, if_neg (Nat.not_lt.mpr hrange)]
      · rw [hasLargeDigit_valueOf fun d hd => Numeral.lt_of_mem_decimals hd, List.any_eq_true]
        exact ⟨d, hd, by simpa using hlarge⟩

theorem parse_of_not_slips (h : ¬ Slips (core shown)) :
    (∃ why, parse given = .error (.rejected why)) ∨
      parse given = .ok (valueOf (decimals (core shown))) ∧
        valueOf (decimals (core shown)) ≤ maxBits ∧
        hasLargeDigit (valueOf (decimals (core shown))) = false := by
  by_cases hpasses : Passes (core shown)
  · have hreadable : Numeral.IsReadable (core shown) :=
      Classical.byContradiction fun hunreadable => h (.unreadable hpasses hunreadable)
    rw [parse_of_isReadable hshown hpasses hreadable]
    by_cases hrange : valueOf (decimals (core shown)) ≤ maxBits
    · refine .inr ⟨if_neg (Nat.not_lt.mpr hrange), hrange, ?_⟩
      rw [hasLargeDigit_valueOf fun d hd => Numeral.lt_of_mem_decimals hd, List.any_eq_false]
      intro d hd hlarge
      exact h (.large hpasses hreadable hrange hd (by simpa using hlarge))
    · exact .inl ⟨_, if_pos (Nat.lt_of_not_le hrange)⟩
  · exact .inl (parse_of_not_passes hshown hpasses)

end

/-! ## Texts and numbers -/

def IsPlain : Value → Prop
  | .str _ | .int _ | .bool _ => True
  | _ => False

/-- A text or a number that the check does not see through.  A number is written first, which ends
at the digits that are converted. -/
def SlipsThrough : Value → Prop
  | .str s => Slips (core s)
  | .int n => ¬ Numeral.Fits n
  | _ => False

def Denotes : Value → Nat → Prop
  | .str s, bits => valueOf (decimals (core s)) = bits
  | .int n, bits => n = bits
  | _, _ => False

theorem parse_of_slipsThrough {given : Value} (h : SlipsThrough given) :
    (∃ why, parse given = .error (.numeral why)) ∨
      ∃ bits, parse given = .ok bits ∧ bits ≤ maxBits ∧ hasLargeDigit bits = true := by
  cases given with
  | str s => exact parse_of_slips rfl h
  | int n =>
      have hlong : ¬ Numeral.Fits n := h
      refine .inl ⟨.tooLong none, ?_⟩
      unfold parse
      rw [asText_int, if_neg hlong]
      rfl
  | _ => cases h

theorem parse_of_not_slipsThrough {given : Value} (hplain : IsPlain given)
    (h : ¬ SlipsThrough given) :
    (∃ why, parse given = .error (.rejected why)) ∨
      ∃ bits, parse given = .ok bits ∧ bits ≤ maxBits ∧ hasLargeDigit bits = false ∧
        Denotes given bits := by
  cases given with
  | str s =>
      have hshown : (Value.str s).asText = .ok s := rfl
      rcases parse_of_not_slips hshown h with hrejected | ⟨hbits, hrange, hsmall⟩
      · exact .inl hrejected
      · exact .inr ⟨_, hbits, hrange, hsmall, rfl⟩
  | int n =>
      have hfits : Numeral.Fits n := Classical.not_not.mp h
      cases n with
      | negSucc n => exact .inl ⟨_, parse_negSucc hfits⟩
      | ofNat n =>
          have hparse := parse_ofNat (n := n) hfits
          change parse (.int (.ofNat n)) = _ at hparse
          cases hlarge : hasLargeDigit n with
          | true => exact .inl ⟨_, hparse.trans (if_pos hlarge)⟩
          | false =>
              rw [hlarge, if_neg Bool.false_ne_true] at hparse
              by_cases hrange : n ≤ maxBits
              · exact .inr ⟨n, hparse.trans (if_neg (Nat.not_lt.mpr hrange)), hrange, hlarge, rfl⟩
              · exact .inl ⟨_, hparse.trans (if_pos (Nat.lt_of_not_le hrange))⟩
  | bool b =>
      have hrejected : ∀ b, parse (.bool b) =
          .error (.rejected (.notOctal (if b then "True" else "False"))) := by
        decide
      exact .inl ⟨_, hrejected b⟩
  | _ => cases hplain

theorem decode_settles_iff {given : Value} (hplain : IsPlain given) (isDirectory : Bool) :
    ((∃ why, decode given isDirectory = .error (.rejected why)) ∨
      ∃ bits, Denotes given bits ∧
        decode given isDirectory = .ok (symbolic bits isDirectory)) ↔ ¬ SlipsThrough given := by
  unfold decode
  constructor
  · rintro hsettles hslips
    rcases parse_of_slipsThrough hslips with ⟨why, hwhy⟩ | ⟨bits, hbits, hrange, hlarge⟩
    · simp [hwhy, bind, Except.bind] at hsettles
    · have htriads : hasTriads bits = false := by
        rw [← Bool.not_eq_true, hasTriads_iff hrange, hlarge]
        nofun
      simp [hbits, htriads, bind, Except.bind] at hsettles
  · intro hchecked
    rcases parse_of_not_slipsThrough hplain hchecked with
      ⟨why, hwhy⟩ | ⟨bits, hbits, -, hsmall, hdenotes⟩
    · exact .inl ⟨why, by simp [hwhy, bind, Except.bind]⟩
    · refine .inr ⟨bits, hdenotes, ?_⟩
      simp [hbits, hasTriads_of_not_hasLargeDigit hsmall, bind, Except.bind]

/-! ## What is sent -/

theorem digits_of_isPlain {given : Value} (hplain : IsPlain given) :
    (Input.bits given).digits = (parse given).map fun bits => format bits := by
  cases given with
  | str s => rfl
  | int n => rfl
  | bool b => rfl
  | _ => cases hplain

theorem digits_settle_iff {given : Value} (hplain : IsPlain given) :
    ((∃ why, (Input.bits given).digits = .error (.rejected why)) ∨
      ∃ text bits, (Input.bits given).digits = .ok text ∧ IsOctal text bits ∧
        Denotes given bits) ↔ ¬ SlipsThrough given := by
  rw [digits_of_isPlain hplain]
  constructor
  · rintro hsettles hslips
    rcases parse_of_slipsThrough hslips with ⟨why, hwhy⟩ | ⟨bits, hbits, hrange, hlarge⟩
    · simp [hwhy, Except.map] at hsettles
    · rw [hbits] at hsettles
      rcases hsettles with ⟨why, hwhy⟩ | ⟨text, n, htext, hoctal, -⟩
      · cases hwhy
      · cases htext
        simp [not_hasLargeDigit_of_isOctal hoctal] at hlarge
  · intro hchecked
    rcases parse_of_not_slipsThrough hplain hchecked with
      ⟨why, hwhy⟩ | ⟨bits, hbits, hrange, hsmall, hdenotes⟩
    · exact .inl ⟨why, by rw [hwhy]; rfl⟩
    · exact .inr ⟨format bits, bits, by rw [hbits]; rfl, isOctal_format hrange hsmall, hdenotes⟩

end Permission

end HdfsBrowser
