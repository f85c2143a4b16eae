import HdfsBrowser.Json.Parser

/-!
# What a JSON text leaves

A reader that gives a result leaves an end of its text.  A reader that stops at
a numeral stops inside a long row of digits, so a text without one is read or
malformed.
-/

namespace HdfsBrowser.Json

def HasLongNumeral (cs : List Char) : Prop :=
  ∃ ds, ds <:+: cs ∧ (∀ c ∈ ds, c.isDigit = true) ∧ Numeral.digitLimit < ds.length

/-- The result of a reader leaves an end of its text, and a numeral at fault is a long one. -/
inductive Consumes {α : Type} (cs : List Char) : Except ParseFault (α × List Char) → Prop
  | leaves {a : α} {rest : List Char} (h : rest <:+ cs) : Consumes cs (.ok (a, rest))
  | malformed : Consumes cs (.error .malformed)
  | numeral {why : NumeralFault} (h : HasLongNumeral cs) : Consumes cs (.error (.numeral why))

variable {α β : Type} {cs rest : List Char}

theorem HasLongNumeral.of_suffix (h : HasLongNumeral rest) (hrest : rest <:+ cs) :
    HasLongNumeral cs := by
  obtain ⟨ds, hds, hdigits, hlong⟩ := h
  exact ⟨ds, hds.trans hrest.isInfix, hdigits, hlong⟩

theorem Consumes.of_suffix {x : Except ParseFault (α × List Char)} (h : Consumes rest x)
    (hrest : rest <:+ cs) : Consumes cs x := by
  cases h with
  | leaves h => exact .leaves (h.trans hrest)
  | malformed => exact .malformed
  | numeral h => exact .numeral (h.of_suffix hrest)

theorem Consumes.bind {x : Except ParseFault (α × List Char)}
    {f : α × List Char → Except ParseFault (β × List Char)} (h : Consumes cs x)
    (hf : ∀ a rest, Consumes rest (f (a, rest))) : Consumes cs (x >>= f) := by
  cases h with
  | @leaves a rest hrest => exact (hf a rest).of_suffix hrest
  | malformed => exact .malformed
  | numeral h => exact .numeral h

theorem skipWhite_suffix (cs : List Char) : skipWhite cs <:+ cs := List.dropWhile_suffix _

theorem cons_suffix {c : Char} (h : c :: rest <:+ cs) : rest <:+ cs :=
  (List.suffix_cons c rest).trans h

/-! ## Strings -/

theorem readUnit?_suffix {n : Nat} (h : readUnit? cs = some (n, rest)) : rest <:+ cs := by
  match cs, h with
  | a :: b :: c :: d :: tail, h =>
      obtain ⟨m, -, hm⟩ := Option.bind_eq_some_iff.mp h
      cases hm
      exact ⟨[a, b, c, d], rfl⟩

theorem readLow?_suffix {n : Nat} (h : readLow? cs = some (n, rest)) : rest <:+ cs := by
  unfold readLow? at h
  split at h
  · exact (readUnit?_suffix (Option.filter_eq_some_iff.mp h).1).trans ⟨['\\', 'u'], rfl⟩
  · cases h

theorem readEscape?_suffix {c : Char} (h : readEscape? cs = some (c, rest)) : rest <:+ cs := by
  unfold readEscape? at h
  split at h
  · next tail =>
      obtain ⟨⟨n, after⟩, hunit, h⟩ := Option.bind_eq_some_iff.mp h
      have hafter : after <:+ 'u' :: tail :=
        (readUnit?_suffix hunit).trans (List.suffix_cons 'u' tail)
      simp only [pure] at h
      split at h
      · split at h
        · next low last hlow =>
            obtain ⟨-, rfl⟩ := Prod.mk.inj (Option.some.inj h)
            exact (readLow?_suffix hlow).trans hafter
        · obtain ⟨-, rfl⟩ := Prod.mk.inj (Option.some.inj h)
          exact hafter
      · obtain ⟨-, rfl⟩ := Prod.mk.inj (Option.some.inj h)
        exact hafter
  · next c' tail _ =>
      obtain ⟨e, -, he⟩ := Option.map_eq_some_iff.mp h
      cases he
      exact List.suffix_cons c' rest
  · cases h

theorem consumes_readString (fuel : Nat) (cs : List Char) : Consumes cs (readString fuel cs) := by
  induction fuel generalizing cs with
  | zero => exact .malformed
  | succ fuel ih =>
      cases cs with
      | nil => exact .malformed
      | cons c cs =>
          have htail := List.suffix_cons c cs
          rw [readString]
          split
          · exact .leaves htail
          · split
            · split
              · exact .malformed
              · next e rest hescape =>
                  refine .of_suffix (.bind (ih rest) ?_) ((readEscape?_suffix hescape).trans htail)
                  exact fun tail last => .leaves List.suffix_rfl
            · split
              · exact .malformed
              · refine .of_suffix (.bind (ih cs) ?_) htail
                exact fun tail last => .leaves List.suffix_rfl

theorem consumes_string (fuel : Nat) (cs : List Char) : Consumes cs (string fuel cs) :=
  (consumes_readString fuel cs).bind fun _ _ => .leaves List.suffix_rfl

/-! ## Numbers -/

theorem spanDigits_suffix (cs : List Char) : (Decimal.spanDigits cs).2 <:+ cs :=
  List.dropWhile_suffix _

theorem hasLongNumeral_of_spanDigits
    (h : Numeral.digitLimit < (Decimal.spanDigits cs).1.length) : HasLongNumeral cs := by
  refine ⟨cs.takeWhile Char.isDigit, (List.takeWhile_prefix _).isInfix, ?_, ?_⟩
  · exact List.all_eq_true.mp List.all_takeWhile
  · simpa [Decimal.spanDigits] using h

theorem readWhole?_spec {ds : List Nat} (h : readWhole? cs = some (ds, rest)) :
    rest <:+ cs ∧ (Numeral.digitLimit < ds.length → HasLongNumeral cs) := by
  unfold readWhole? at h
  split at h
  · cases h
  · cases h
    exact ⟨List.drop_suffix 1 cs, fun hlong => absurd hlong (by decide)⟩
  · next whole tail _ _ hspan =>
      cases h
      have hrest := spanDigits_suffix cs
      rw [hspan] at hrest
      exact ⟨hrest, fun hlong => hasLongNumeral_of_spanDigits (by rw [hspan]; exact hlong)⟩

theorem readPart?_suffix {ds : List Nat} (h : readPart? cs = some (ds, rest)) : rest <:+ cs := by
  unfold readPart? at h
  split at h
  · next tail =>
      split at h
      · cases h
      · next hspan =>
          cases h
          have hrest := spanDigits_suffix tail
          rw [hspan] at hrest
          exact hrest.trans (List.suffix_cons '.' tail)
  · cases h

theorem readSign_suffix (cs : List Char) : (Numeral.readSign cs).2 <:+ cs := by
  unfold Numeral.readSign
  split
  · exact List.suffix_cons _ _
  · exact List.suffix_cons _ _
  · exact List.suffix_rfl

theorem readPower?_suffix {e : Int} (h : readPower? cs = some (e, rest)) : rest <:+ cs := by
  unfold readPower? at h
  split at h
  · next c tail =>
      split at h
      · dsimp only at h
        split at h
        · cases h
        · next hspan =>
            cases h
            have hrest := spanDigits_suffix (Numeral.readSign tail).2
            rw [hspan] at hrest
            exact (hrest.trans (readSign_suffix tail)).trans (List.suffix_cons c tail)
      · cases h
  · cases h

theorem getD_suffix {o : Option (α × List Char)} (h : ∀ a tail, o = some (a, tail) → tail <:+ cs) :
    (o.map (·.2)).getD cs <:+ cs := by
  cases o with
  | none => exact List.suffix_rfl
  | some read => exact h read.1 read.2 rfl

theorem consumes_unsigned (negative : Bool) (cs : List Char) :
    Consumes cs (unsigned negative cs) := by
  unfold unsigned
  split
  · exact .malformed
  · next whole rest hwhole =>
      obtain ⟨hrest, hlong⟩ := readWhole?_spec hwhole
      have hpart : ((readPart? rest).map (·.2)).getD rest <:+ rest :=
        getD_suffix fun _ _ => readPart?_suffix
      have hpower (after : List Char) : ((readPower? after).map (·.2)).getD after <:+ after :=
        getD_suffix fun _ _ => readPower?_suffix
      have hlast := ((hpower _).trans hpart).trans hrest
      dsimp only
      split
      · split
        · next hlength => exact .numeral (hlong hlength)
        · exact .leaves hlast
      · exact .leaves hlast

theorem afterWord?_suffix {word : String} (h : afterWord? word cs = some rest) : rest <:+ cs := by
  unfold afterWord? at h
  split at h
  · cases h
    exact List.drop_suffix _ cs
  · cases h

theorem consumes_number (cs : List Char) : Consumes cs (number cs) := by
  unfold number
  split
  · next body =>
      split
      · next rest hword =>
          exact .leaves ((afterWord?_suffix hword).trans (List.suffix_cons '-' body))
      · exact (consumes_unsigned true body).of_suffix (List.suffix_cons '-' body)
  · exact consumes_unsigned false cs

theorem readWord?_suffix {v : Value} (h : readWord? cs = some (v, rest)) : rest <:+ cs := by
  obtain ⟨⟨word, w⟩, -, hword⟩ := List.exists_of_findSome?_eq_some h
  obtain ⟨tail, htail, heq⟩ := Option.map_eq_some_iff.mp hword
  cases heq
  exact afterWord?_suffix htail

/-! ## Values -/

theorem consumes_value (fuel : Nat) :
    (∀ cs, Consumes cs (value fuel cs)) ∧ (∀ cs, Consumes cs (items fuel cs)) ∧
      ∀ cs, Consumes cs (members fuel cs) := by
  induction fuel with
  | zero => exact ⟨fun _ => .malformed, fun _ => .malformed, fun _ => .malformed⟩
  | succ fuel ih =>
      obtain ⟨hvalue, hitems, hmembers⟩ := ih
      refine ⟨fun cs => ?_, fun cs => ?_, fun cs => ?_⟩
      · rw [value.eq_def]
        dsimp only
        split
        · next rest =>
            refine .of_suffix (.bind (consumes_string fuel rest) ?_) (List.suffix_cons _ rest)
            exact fun s last => .leaves List.suffix_rfl
        · next rest =>
            have hwhite := (skipWhite_suffix rest).trans (List.suffix_cons '[' rest)
            split
            · next heq => exact .leaves (cons_suffix (heq ▸ hwhite))
            · refine .of_suffix (.bind (hitems _) ?_) hwhite
              exact fun vs last => .leaves List.suffix_rfl
        · next rest =>
            have hwhite := (skipWhite_suffix rest).trans (List.suffix_cons '\x7b' rest)
            split
            · next heq => exact .leaves (cons_suffix (heq ▸ hwhite))
            · refine .of_suffix (.bind (hmembers _) ?_) hwhite
              exact fun pairs last => .leaves List.suffix_rfl
        · split
          · next hword => exact .leaves (readWord?_suffix hword)
          · exact consumes_number cs
      · rw [items.eq_def]
        refine .bind (hvalue cs) fun v rest => ?_
        have hwhite := skipWhite_suffix rest
        dsimp only
        split
        · next heq => exact .leaves (cons_suffix (heq ▸ hwhite))
        · next last heq =>
            have hlast := (skipWhite_suffix last).trans (cons_suffix (heq ▸ hwhite))
            refine .of_suffix (.bind (hitems _) ?_) hlast
            exact fun vs last => .leaves List.suffix_rfl
        · exact .malformed
      · rw [members.eq_def]
        dsimp only
        split
        · next start =>
            refine .of_suffix (.bind (consumes_string fuel start) fun key rest => ?_)
              (List.suffix_cons '"' start)
            have hwhite := skipWhite_suffix rest
            dsimp only
            split
            · next after heq =>
                have hafter := (skipWhite_suffix after).trans (cons_suffix (heq ▸ hwhite))
                refine .of_suffix (.bind (hvalue _) fun v rest => ?_) hafter
                have hwhite := skipWhite_suffix rest
                dsimp only
                split
                · next heq => exact .leaves (cons_suffix (heq ▸ hwhite))
                · next last heq =>
                    have hlast := (skipWhite_suffix last).trans (cons_suffix (heq ▸ hwhite))
                    refine .of_suffix (.bind (hmembers _) ?_) hlast
                    exact fun more last => .leaves List.suffix_rfl
                · exact .malformed
            · exact .malformed
        · exact .malformed

theorem hasLongNumeral_of_parse {s : String} {why : NumeralFault}
    (h : parse s = .error (.numeral why)) : HasLongNumeral s.toList := by
  have hconsumes := (consumes_value ((skipWhite s.toList).length + 1)).1 (skipWhite s.toList)
  unfold parse at h
  dsimp only at h
  generalize value ((skipWhite s.toList).length + 1) (skipWhite s.toList) = read at h hconsumes
  cases hconsumes with
  | leaves hrest =>
      simp only [bind, Except.bind] at h
      split at h <;> cases h
  | malformed => cases h
  | numeral hlong => exact hlong.of_suffix (skipWhite_suffix _)

end HdfsBrowser.Json
