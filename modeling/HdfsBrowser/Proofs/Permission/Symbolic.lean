import HdfsBrowser.Proofs.Permission.Text
import Mathlib.Data.Nat.Digits.Defs

/-!
# Permissions as ten characters

The characters that are accepted form a small language: a kind, three triads,
and any number of marks after them.  A triad that is accepted stands for three
flags, and ten characters stand for ten flags and a kind.  Characters, flags and
numbers agree, except that a number keeps only the sticky bit of its first digit.
-/

namespace HdfsBrowser.Permission

/-! ## The language -/

inductive IsTriad (last : List Char) : List Char → Prop
  | mk {r w x : Char} (hread : r ∈ ['r', '-']) (hwrite : w ∈ ['w', '-']) (hexecute : x ∈ last) :
      IsTriad last [r, w, x]

/-- A kind, and the triads of the owner, the group and the others. -/
inductive IsBody : List Char → Prop
  | mk {kind : Char} {owner group other : List Char} (hkind : kind ∈ ['d', '-'])
      (howner : IsTriad ['x', '-'] owner) (hgroup : IsTriad ['x', '-'] group)
      (hother : IsTriad ['x', '-', 't', 'T'] other) : IsBody (kind :: (owner ++ group ++ other))

/-- The text is a body with any number of marks after it. -/
def Spells (s : String) (body : List Char) : Prop :=
  IsBody body ∧ ∃ k, s.toList = body ++ List.replicate k '+'

theorem isBody_iff {kind : Char} {body : List Char} :
    IsBody (kind :: body) ↔ body.length = 9 ∧ (kind = 'd' ∨ kind = '-') ∧
      (allowedChars.zip body).all (fun (allowed, c) => allowed.contains c) = true := by
  constructor
  · intro h
    cases h with
    | mk hkind howner hgroup hother =>
        cases howner
        cases hgroup
        cases hother
        simp_all [allowedChars]
  · rintro ⟨hlength, hkind, hall⟩
    obtain ⟨ur, uw, ux, gr, gw, gx, r, w, x, rfl⟩ : ∃ ur uw ux gr gw gx r w x,
        body = [ur, uw, ux, gr, gw, gx, r, w, x] := by
      match body, hlength with
      | [ur, uw, ux, gr, gw, gx, r, w, x], _ => exact ⟨ur, uw, ux, gr, gw, gx, r, w, x, rfl⟩
    simp only [allowedChars, List.zip_cons_cons, List.zip_nil_left, List.all_cons, List.all_nil,
      List.contains_iff_mem, Bool.and_eq_true, Bool.and_true] at hall
    obtain ⟨hur, huw, hux, hgr, hgw, hgx, hr, hw, hx⟩ := hall
    exact .mk (by simpa using hkind) (.mk hur huw hux) (.mk hgr hgw hgx) (.mk hr hw hx)

/-! ## Marks after a text -/

theorem exists_marks (cs : List Char) :
    ∃ k, cs = Text.trimEndBy (· == '+') cs ++ List.replicate k '+' := by
  refine ⟨(cs.rtakeWhile (· == '+')).length, ?_⟩
  have hmarks : cs.rtakeWhile (· == '+') =
      List.replicate (cs.rtakeWhile (· == '+')).length '+' :=
    List.eq_replicate_of_mem fun c hc => by simpa using List.mem_rtakeWhile_imp hc
  rw [← hmarks]
  exact List.rdropWhile_append_rtakeWhile.symm

theorem trimEndBy_marks {cs : List Char} (h : cs.getLast? ≠ some '+') (k : Nat) :
    Text.trimEndBy (· == '+') (cs ++ List.replicate k '+') = cs := by
  change (cs ++ List.replicate k '+').rdropWhile (· == '+') = cs
  induction k with
  | zero =>
      rw [List.replicate_zero, List.append_nil, List.rdropWhile_eq_self_iff]
      intro hne
      rw [List.getLast?_eq_some_getLast hne] at h
      simpa using h
  | succ k ih =>
      rw [List.replicate_succ', ← List.append_assoc, List.rdropWhile_concat_pos _ _ _ rfl, ih]

theorem getLast?_of_isBody {cs : List Char} (h : IsBody cs) : cs.getLast? ≠ some '+' := by
  cases h with
  | mk hkind howner hgroup hother =>
      cases howner
      cases hgroup
      cases hother with
      | mk hread hwrite hexecute =>
          rintro hlast
          simp only [List.cons_append, List.nil_append, List.getLast?_cons_cons,
            List.getLast?_singleton, Option.some.injEq] at hlast
          subst hlast
          revert hexecute
          decide

theorem spells_iff {s : String} {body : List Char} :
    Spells s body ↔ IsBody body ∧ Text.trimEndBy (· == '+') s.toList = body := by
  constructor
  · rintro ⟨hbody, k, hs⟩
    exact ⟨hbody, by rw [hs, trimEndBy_marks (getLast?_of_isBody hbody)]⟩
  · rintro ⟨hbody, rfl⟩
    exact ⟨hbody, exists_marks s.toList⟩

/-! ## Flags and characters -/

def mark (c : Char) (on : Bool) : Char := if on then c else '-'

def Flags.chars (f : Flags) : List Char :=
  [mark 'r' f.ownerRead, mark 'w' f.ownerWrite, mark 'x' f.ownerExecute,
   mark 'r' f.groupRead, mark 'w' f.groupWrite, mark 'x' f.groupExecute,
   mark 'r' f.otherRead, mark 'w' f.otherWrite, lastChar f.sticky f.otherExecute]

def kindChar (isDirectory : Bool) : Char := if isDirectory then 'd' else '-'

theorem mark_mem (c : Char) (on : Bool) : mark c on ∈ [c, '-'] := by
  cases on <;> simp [mark]

theorem exists_mark {c d : Char} (h : d ∈ [c, '-']) : ∃ on, d = mark c on := by
  rcases List.mem_pair.mp h with rfl | rfl
  · exact ⟨true, rfl⟩
  · exact ⟨false, rfl⟩

theorem lastChar_mem (sticky execute : Bool) : lastChar sticky execute ∈ ['x', '-', 't', 'T'] := by
  revert sticky execute
  decide

theorem exists_lastChar {c : Char} (h : c ∈ ['x', '-', 't', 'T']) :
    ∃ sticky execute, c = lastChar sticky execute := by
  simp only [List.mem_cons, List.not_mem_nil, or_false] at h
  rcases h with rfl | rfl | rfl | rfl
  · exact ⟨false, true, rfl⟩
  · exact ⟨false, false, rfl⟩
  · exact ⟨true, true, rfl⟩
  · exact ⟨true, false, rfl⟩

theorem isBody_chars (isDirectory : Bool) (f : Flags) : IsBody (kindChar isDirectory :: f.chars) :=
  .mk (mark_mem 'd' isDirectory)
    (.mk (mark_mem 'r' _) (mark_mem 'w' _) (mark_mem 'x' _))
    (.mk (mark_mem 'r' _) (mark_mem 'w' _) (mark_mem 'x' _))
    (.mk (mark_mem 'r' _) (mark_mem 'w' _) (lastChar_mem _ _))

theorem exists_flags {cs : List Char} (h : IsBody cs) :
    ∃ isDirectory f, cs = kindChar isDirectory :: Flags.chars f := by
  cases h with
  | mk hkind howner hgroup hother =>
      obtain ⟨isDirectory, rfl⟩ := exists_mark hkind
      cases howner with
      | mk hur huw hux =>
          cases hgroup with
          | mk hgr hgw hgx =>
              cases hother with
              | mk hr hw hx =>
                  obtain ⟨ur, rfl⟩ := exists_mark hur
                  obtain ⟨uw, rfl⟩ := exists_mark huw
                  obtain ⟨ux, rfl⟩ := exists_mark hux
                  obtain ⟨gr, rfl⟩ := exists_mark hgr
                  obtain ⟨gw, rfl⟩ := exists_mark hgw
                  obtain ⟨gx, rfl⟩ := exists_mark hgx
                  obtain ⟨r, rfl⟩ := exists_mark hr
                  obtain ⟨w, rfl⟩ := exists_mark hw
                  obtain ⟨sticky, x, rfl⟩ := exists_lastChar hx
                  exact ⟨isDirectory, ⟨sticky, ur, uw, ux, gr, gw, gx, r, w, x⟩, rfl⟩

theorem mark_ne_dash {c : Char} (h : c ≠ '-') (on : Bool) : (mark c on != '-') = on := by
  cases on
  · rfl
  · simpa [mark] using h

theorem lastChar_sticky (sticky execute : Bool) :
    (lastChar sticky execute == 't' || lastChar sticky execute == 'T') = sticky := by
  revert sticky execute
  decide

theorem lastChar_execute (sticky execute : Bool) :
    (lastChar sticky execute == 'x' || lastChar sticky execute == 't') = execute := by
  revert sticky execute
  decide

theorem ofSymbolic_chars {s : String} {isDirectory : Bool} {f : Flags}
    (h : Spells s (kindChar isDirectory :: f.chars)) : ofSymbolic s = .ok f := by
  obtain ⟨hbody, htrim⟩ := spells_iff.mp h
  have hread : (f.chars.take 8).map (· != '-') =
      [f.ownerRead, f.ownerWrite, f.ownerExecute, f.groupRead, f.groupWrite, f.groupExecute,
       f.otherRead, f.otherWrite] := by
    simp [Flags.chars, mark_ne_dash]
  have hlast : f.chars.getLast?.getD '-' = lastChar f.sticky f.otherExecute := rfl
  simp only [ofSymbolic, htrim]
  rw [if_pos (isBody_iff.mp hbody)]
  simp only [hread, hlast, lastChar_sticky, lastChar_execute]
  rfl

theorem ofSymbolic_of_not_spells {s : String} (h : ¬ ∃ body, Spells s body) :
    ofSymbolic s = .error (.rejected (.symbolic s)) := by
  unfold ofSymbolic
  cases htrim : Text.trimEndBy (· == '+') s.toList with
  | nil => rfl
  | cons kind body =>
      refine if_neg fun hbody => h ⟨kind :: body, spells_iff.mpr ⟨isBody_iff.mpr hbody, htrim⟩⟩

/-! ## Flags and numbers -/

def Flags.ofBits (bits : Nat) : Flags where
  sticky := bits / 1000 % 2 = 1
  ownerRead := bits / 100 % 10 / 4 % 2 = 1
  ownerWrite := bits / 100 % 10 / 2 % 2 = 1
  ownerExecute := bits / 100 % 10 % 2 = 1
  groupRead := bits / 10 % 10 / 4 % 2 = 1
  groupWrite := bits / 10 % 10 / 2 % 2 = 1
  groupExecute := bits / 10 % 10 % 2 = 1
  otherRead := bits % 10 / 4 % 2 = 1
  otherWrite := bits % 10 / 2 % 2 = 1
  otherExecute := bits % 10 % 2 = 1

theorem bodyChars_eq (bits : Nat) : bodyChars bits = (Flags.ofBits bits).chars := by
  have hlast : bits % 10 % 2 = bits % 2 := Nat.mod_mod_of_dvd bits (by decide)
  simp [bodyChars, triad, Flags.chars, Flags.ofBits, mark, hlast]

theorem symbolic_eq (bits : Nat) (isDirectory : Bool) :
    symbolic bits isDirectory =
      String.ofList (kindChar isDirectory :: (Flags.ofBits bits).chars) := by
  rw [symbolic, bodyChars_eq]
  rfl

def digitOf (read write execute : Bool) : Nat :=
  4 * read.toNat + 2 * write.toNat + execute.toNat

theorem digitOf_bits (read write execute : Bool) :
    digitOf read write execute < 8 ∧
      decide (digitOf read write execute / 4 % 2 = 1) = read ∧
      decide (digitOf read write execute / 2 % 2 = 1) = write ∧
      decide (digitOf read write execute % 2 = 1) = execute := by
  revert read write execute
  decide

theorem digitOf_digit {d : Nat} (h : d < 8) :
    digitOf (d / 4 % 2 = 1) (d / 2 % 2 = 1) (d % 2 = 1) = d := by
  revert h
  revert d
  decide

theorem encode_eq (f : Flags) :
    encode f = 1000 * f.sticky.toNat +
      100 * digitOf f.ownerRead f.ownerWrite f.ownerExecute +
      10 * digitOf f.groupRead f.groupWrite f.groupExecute +
      digitOf f.otherRead f.otherWrite f.otherExecute := by
  have hweigh (weight n : Nat) (on : Bool) :
      (if on then weight + n else n) = weight * on.toNat + n := by
    cases on <;> simp
  simp only [encode, weights, Flags.toList, List.zip_cons_cons, List.zip_nil_left, List.foldr_cons,
    List.foldr_nil, hweigh, digitOf]
  omega

theorem digits_of_encode (f : Flags) :
    encode f / 1000 = f.sticky.toNat ∧
      encode f / 100 % 10 = digitOf f.ownerRead f.ownerWrite f.ownerExecute ∧
      encode f / 10 % 10 = digitOf f.groupRead f.groupWrite f.groupExecute ∧
      encode f % 10 = digitOf f.otherRead f.otherWrite f.otherExecute := by
  have howner := (digitOf_bits f.ownerRead f.ownerWrite f.ownerExecute).1
  have hgroup := (digitOf_bits f.groupRead f.groupWrite f.groupExecute).1
  have hother := (digitOf_bits f.otherRead f.otherWrite f.otherExecute).1
  rw [encode_eq]
  omega

theorem ofBits_encode (f : Flags) : Flags.ofBits (encode f) = f := by
  obtain ⟨hsticky, howner, hgroup, hother⟩ := digits_of_encode f
  have htoNat (on : Bool) : decide (on.toNat % 2 = 1) = on := by
    cases on <;> rfl
  obtain ⟨-, hur, huw, hux⟩ := digitOf_bits f.ownerRead f.ownerWrite f.ownerExecute
  obtain ⟨-, hgr, hgw, hgx⟩ := digitOf_bits f.groupRead f.groupWrite f.groupExecute
  obtain ⟨-, hr, hw, hx⟩ := digitOf_bits f.otherRead f.otherWrite f.otherExecute
  simp only [Flags.ofBits, hsticky, howner, hgroup, hother, htoNat, hur, huw, hux, hgr, hgw, hgx,
    hr, hw, hx]

theorem encode_ofBits {bits : Nat} (h : hasTriads bits = true) :
    encode (Flags.ofBits bits) = bits % 1000 + if bits / 1000 % 2 = 1 then 1000 else 0 := by
  simp only [hasTriads, Bool.and_eq_true, decide_eq_true_eq] at h
  obtain ⟨⟨hother, hgroup⟩, howner⟩ := h
  have hsticky : 1000 * (decide (bits / 1000 % 2 = 1)).toNat =
      if bits / 1000 % 2 = 1 then 1000 else 0 := by
    split <;> simp_all
  rw [encode_eq]
  simp only [Flags.ofBits, hsticky, digitOf_digit howner, digitOf_digit hgroup,
    digitOf_digit hother]
  omega

theorem lt_tenTo {n k m : Nat} (hn : n < tenTo k) (hk : k ≤ m) : n < tenTo m :=
  Nat.lt_of_lt_of_le hn (Nat.pow_le_pow_right (by decide) hk)

theorem decode_ofNat {bits : Nat} (hrange : bits ≤ maxBits) (hsmall : hasLargeDigit bits = false)
    (isDirectory : Bool) :
    decode (.int bits) isDirectory =
      .ok (String.ofList (kindChar isDirectory :: (Flags.ofBits bits).chars)) := by
  have hlimit : bits < tenTo Numeral.digitLimit :=
    Nat.lt_of_le_of_lt hrange (lt_tenTo (by decide : maxBits < tenTo 4) (by decide))
  unfold decode
  rw [parse_ofNat hlimit, hsmall, if_neg Bool.false_ne_true, if_neg (Nat.not_lt.mpr hrange)]
  simp only [bind, Except.bind, hasTriads_of_not_hasLargeDigit hsmall, ↓reduceIte, symbolic_eq]

theorem encode_le (f : Flags) : encode f ≤ maxBits := by
  have howner := (digitOf_bits f.ownerRead f.ownerWrite f.ownerExecute).1
  have hgroup := (digitOf_bits f.groupRead f.groupWrite f.groupExecute).1
  have hother := (digitOf_bits f.otherRead f.otherWrite f.otherExecute).1
  have hsticky : f.sticky.toNat ≤ 1 := Bool.toNat_le f.sticky
  rw [encode_eq, maxBits]
  omega

theorem hasTriads_encode (f : Flags) : hasTriads (encode f) = true := by
  obtain ⟨-, howner, hgroup, hother⟩ := digits_of_encode f
  simp [hasTriads, howner, hgroup, hother, (digitOf_bits _ _ _).1]

theorem decode_encode_chars (f : Flags) (isDirectory : Bool) :
    decode (.int (encode f)) isDirectory =
      .ok (String.ofList (kindChar isDirectory :: f.chars)) := by
  have hsmall : hasLargeDigit (encode f) = false :=
    (hasTriads_iff (encode_le f)).mp (hasTriads_encode f)
  rw [decode_ofNat (encode_le f) hsmall, ofBits_encode]

/-! ## Decimal digits -/

theorem hasLargeDigit_iff (n : Nat) :
    hasLargeDigit n = true ↔ 8 ∈ Nat.digits 10 n ∨ 9 ∈ Nat.digits 10 n := by
  induction n using Nat.strongRecOn with
  | ind n ih =>
      by_cases hzero : n = 0
      · subst hzero
        decide
      · have hsplit : n = n / 10 * 10 + n % 10 := by omega
        have hlast : n % 10 < 10 := Nat.mod_lt n (by decide)
        have hrest := ih (n / 10) (by omega)
        have hlarge : 8 ≤ n % 10 ↔ 8 = n % 10 ∨ 9 = n % 10 := by omega
        rw [hsplit, hasLargeDigit_append hlast, Bool.or_eq_true, hrest, decide_eq_true_eq,
          ← hsplit, hlarge, Nat.digits_def' (by decide) (Nat.pos_of_ne_zero hzero), List.mem_cons,
          List.mem_cons]
        exact or_comm.trans or_or_or_comm

/-- The number is none of a permission: it is out of range, or a digit of it is not octal. -/
def IsNoPermission (n : Int) : Prop :=
  n < 0 ∨ 7777 < n ∨ 8 ∈ Nat.digits 10 n.natAbs ∨ 9 ∈ Nat.digits 10 n.natAbs

theorem not_isNoPermission_iff {n : Int} :
    ¬ IsNoPermission n ↔ ∃ bits : Nat, n = bits ∧ bits ≤ maxBits ∧ hasLargeDigit bits = false := by
  unfold IsNoPermission
  rw [← hasLargeDigit_iff, maxBits]
  constructor
  · intro h
    push Not at h
    exact ⟨n.natAbs, by omega, by omega, by simpa using h.2.2⟩
  · rintro ⟨bits, rfl, hrange, hsmall⟩
    simp [hsmall]
    omega

theorem decode_of_isNoPermission {n : Int} (hfits : Numeral.Fits n) (h : IsNoPermission n)
    (isDirectory : Bool) : ∃ why, decode (.int n) isDirectory = .error (.rejected why) := by
  unfold decode
  cases n with
  | negSucc n => exact ⟨_, by rw [parse_negSucc hfits]; rfl⟩
  | ofNat n =>
      have hparse := parse_ofNat (n := n) hfits
      change parse (.int (.ofNat n)) = _ at hparse
      cases hlarge : hasLargeDigit n with
      | true => exact ⟨_, by rw [hparse, hlarge]; rfl⟩
      | false =>
          have hrange : maxBits < n := by
            by_contra hrange
            exact not_isNoPermission_iff.mpr ⟨n, rfl, Nat.le_of_not_lt hrange, hlarge⟩ h
          exact ⟨_, by rw [hparse, hlarge, if_neg Bool.false_ne_true, if_pos hrange]; rfl⟩

/-- Characters, flags and numbers agree.  The texts that are accepted are the bodies with marks
after them, and the body comes back from the number of the flags.  The numbers that are accepted are
those of at most four octal digits; their characters are accepted, and the number comes back but for
the first digit, of which the sticky bit is left. -/
theorem symbols_agree_with_bits :
    (∀ s : String, ((∃ f, ofSymbolic s = .ok f) ↔ ∃ body, Spells s body) ∧
      ((∃ f, ofSymbolic s = .ok f) ∨ ofSymbolic s = .error (.rejected (.symbolic s))) ∧
      ∀ f body, ofSymbolic s = .ok f → Spells s body →
        decode (.int (encode f)) (s.toList.head? = some 'd') = .ok (String.ofList body)) ∧
    ∀ (n : Int) (isDirectory : Bool), Numeral.Fits n →
      ((∃ why, decode (.int n) isDirectory = .error (.rejected why)) ↔ IsNoPermission n) ∧
      (¬ IsNoPermission n → ∃ s f, decode (.int n) isDirectory = .ok s ∧ ofSymbolic s = .ok f ∧
        (encode f : Int) = n % 1000 + if n / 1000 % 2 = 1 then 1000 else 0) := by
  refine ⟨fun s => ⟨⟨fun ⟨f, hf⟩ => ?_, ?_⟩, ?_, ?_⟩, fun n isDirectory hfits => ⟨⟨?_, ?_⟩, ?_⟩⟩
  · by_contra hnone
    rw [ofSymbolic_of_not_spells hnone] at hf
    cases hf
  · rintro ⟨body, hspells⟩
    obtain ⟨isDirectory, f, rfl⟩ := exists_flags hspells.1
    exact ⟨f, ofSymbolic_chars hspells⟩
  · by_cases hspells : ∃ body, Spells s body
    · obtain ⟨body, hspells⟩ := hspells
      obtain ⟨isDirectory, f, rfl⟩ := exists_flags hspells.1
      exact .inl ⟨f, ofSymbolic_chars hspells⟩
    · exact .inr (ofSymbolic_of_not_spells hspells)
  · rintro f body hf hspells
    obtain ⟨isDirectory, g, rfl⟩ := exists_flags hspells.1
    obtain rfl : g = f := Except.ok.inj ((ofSymbolic_chars hspells).symm.trans hf)
    obtain ⟨k, hs⟩ := hspells.2
    have hkind : decide (s.toList.head? = some 'd') = isDirectory := by
      rw [hs]
      cases isDirectory <;> rfl
    rw [hkind, decode_encode_chars]
  · rintro ⟨why, hwhy⟩
    by_contra hpermission
    obtain ⟨bits, rfl, hrange, hsmall⟩ := not_isNoPermission_iff.mp hpermission
    rw [decode_ofNat hrange hsmall] at hwhy
    cases hwhy
  · exact fun hnone => decode_of_isNoPermission hfits hnone isDirectory
  · intro hpermission
    obtain ⟨bits, rfl, hrange, hsmall⟩ := not_isNoPermission_iff.mp hpermission
    refine ⟨_, Flags.ofBits bits, decode_ofNat hrange hsmall isDirectory, ?_, ?_⟩
    · exact ofSymbolic_chars ⟨isBody_chars isDirectory _, 0, by simp⟩
    · have hodd : (bits : Int) / 1000 % 2 = 1 ↔ bits / 1000 % 2 = 1 := by omega
      rw [encode_ofBits (hasTriads_of_not_hasLargeDigit hsmall), if_congr hodd rfl rfl]
      push_cast
      rfl

theorem symbols_agree_with_bits_of_sticky :
    Spells "drwxr-x--T++" "drwxr-x--T".toList ∧ Numeral.Fits 5750 ∧ ¬ IsNoPermission 5750 ∧
      (∃ f, ofSymbolic "drwxr-x--T++" = .ok f ∧
        decode (.int (encode f)) true = .ok "drwxr-x--T") ∧
      ∃ s f, decode (.int 5750) true = .ok s ∧ ofSymbolic s = .ok f ∧ (encode f : Int) = 1750 := by
  have hspells : Spells "drwxr-x--T++" "drwxr-x--T".toList :=
    ⟨isBody_iff.mpr (by decide), 2, by decide⟩
  have hfits : Numeral.Fits 5750 := lt_tenTo (k := 4) (by decide) (by decide)
  have hpermission : ¬ IsNoPermission 5750 :=
    not_isNoPermission_iff.mpr ⟨5750, rfl, by decide, by decide⟩
  obtain ⟨hsymbols, hbits⟩ := symbols_agree_with_bits
  obtain ⟨haccepted, -, hback⟩ := hsymbols "drwxr-x--T++"
  obtain ⟨f, hf⟩ := haccepted.mpr ⟨_, hspells⟩
  obtain ⟨s, g, hs, hg, hencode⟩ := (hbits 5750 true hfits).2 hpermission
  exact ⟨hspells, hfits, hpermission, ⟨f, hf, hback f _ hf hspells⟩, s, g, hs, hg, hencode⟩

end HdfsBrowser.Permission
