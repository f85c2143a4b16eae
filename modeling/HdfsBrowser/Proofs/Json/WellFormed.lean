import HdfsBrowser.Json.Literal
import HdfsBrowser.Json.Parser
import HdfsBrowser.Json.Reading
import HdfsBrowser.Json.WellFormed
import HdfsBrowser.Proofs.Number.Integer
import HdfsBrowser.Proofs.Number.Nearest

/-!
# Values of JSON texts

A reader gives well-formed values only.
-/

namespace HdfsBrowser

namespace Value

variable {v : Value} {members pairs : List (String × Value)}

theorem WellFormed.of_mem (h : (Value.object members).WellFormed) :
    ∀ m ∈ members, m.2.WellFormed := by
  cases h with
  | object _ h => exact h

theorem WellFormed.keys (h : (Value.object members).WellFormed) :
    (members.map (·.1)).Nodup := by
  cases h with
  | object hkeys _ => exact hkeys

theorem allPrintable_iff (vs : List Value) :
    allPrintable vs = true ↔ ∀ v ∈ vs, v.printable = true := by
  induction vs with
  | nil => simp [allPrintable]
  | cons v vs ih => simp [allPrintable, ih]

theorem membersPrintable_iff (members : List (String × Value)) :
    membersPrintable members = true ↔ ∀ m ∈ members, m.2.printable = true := by
  induction members with
  | nil => simp [membersPrintable]
  | cons m members ih => simp [membersPrintable, ih]

theorem WellFormed.printable (h : v.WellFormed) : v.printable = true := by
  induction h with
  | int h => simpa [Value.printable] using h
  | list _ ih => simpa [Value.printable, allPrintable_iff] using ih
  | object _ _ ih => simpa [Value.printable, membersPrintable_iff] using ih
  | _ => rfl

theorem asText_of_printable (h : v.printable = true) : v.asText = .ok v.text := by
  simp [asText, write, h, Except.mapError]

/-! ## Members -/

theorem mem_of_lookup? {key : String} (h : lookup? key members = some v) : (key, v) ∈ members := by
  obtain ⟨⟨k, w⟩, hfind, rfl⟩ := Option.map_eq_some_iff.mp h
  have hkey := List.find?_some hfind
  rw [beq_iff_eq] at hkey
  exact hkey ▸ List.mem_of_find?_eq_some hfind

theorem mem_keys_insert {key k : String} :
    k ∈ (insert key v members).map (·.1) ↔ k = key ∨ k ∈ members.map (·.1) := by
  induction members with
  | nil => simp [insert]
  | cons m members ih =>
      unfold insert
      split
      · next heq => simp [heq]
      · simp only [List.map_cons, List.mem_cons, ih]
        tauto

theorem nodup_keys_insert (key : String) (v : Value) (h : (members.map (·.1)).Nodup) :
    ((insert key v members).map (·.1)).Nodup := by
  induction members with
  | nil => simp [insert]
  | cons m members ih =>
      obtain ⟨hnew, hrest⟩ := List.nodup_cons.mp h
      unfold insert
      split
      · exact h
      · next hne =>
          refine List.nodup_cons.mpr ⟨fun hmem => ?_, ih hrest⟩
          exact (mem_keys_insert.mp hmem).elim hne hnew

theorem mem_insert {key : String} {m : String × Value} (h : m ∈ insert key v members) :
    m.2 = v ∨ m ∈ members := by
  induction members with
  | nil =>
      rw [insert, List.mem_singleton] at h
      exact .inl (by rw [h])
  | cons first members ih =>
      unfold insert at h
      split at h
      · rcases List.mem_cons.mp h with rfl | hmem
        · exact .inl rfl
        · exact .inr (List.mem_cons_of_mem _ hmem)
      · rcases List.mem_cons.mp h with rfl | hmem
        · exact .inr List.mem_cons_self
        · exact (ih hmem).imp_right (List.mem_cons_of_mem _)

theorem wellFormed_insert (key : String) (hv : v.WellFormed)
    (h : (Value.object members).WellFormed) : (Value.object (insert key v members)).WellFormed := by
  refine .object (nodup_keys_insert key v h.keys) fun m hm => ?_
  rcases mem_insert hm with hvalue | hmem
  · exact hvalue ▸ hv
  · exact h.of_mem m hmem

theorem wellFormed_ofPairs (h : ∀ m ∈ pairs, m.2.WellFormed) :
    (Value.object (ofPairs pairs)).WellFormed := by
  unfold ofPairs
  have hinserted (members : List (String × Value)) (hmembers : (Value.object members).WellFormed) :
      (Value.object (pairs.foldl (fun members m => insert m.1 m.2 members)
        members)).WellFormed := by
    induction pairs generalizing members with
    | nil => exact hmembers
    | cons m pairs ih =>
        obtain ⟨hfirst, hrest⟩ := List.forall_mem_cons.mp h
        exact ih hrest _ (wellFormed_insert m.1 hfirst hmembers)
  exact hinserted [] (.object (by simp) (by simp))

end Value

namespace Json

variable {α β : Type} {cs : List Char}

/-! ## Readers -/

def Yields (P : α → Prop) (x : Except ParseFault (α × List Char)) : Prop :=
  ∀ a rest, x = .ok (a, rest) → P a

theorem Yields.ok {P : α → Prop} {a : α} (h : P a) (rest : List Char) :
    Yields P (.ok (a, rest)) := by
  rintro b last heq
  obtain ⟨rfl, -⟩ := Prod.mk.inj (Except.ok.inj heq)
  exact h

theorem Yields.error (P : α → Prop) (why : ParseFault) : Yields P (.error why) := nofun

theorem Yields.bind {P : α → Prop} {Q : β → Prop} {x : Except ParseFault (α × List Char)}
    {f : α × List Char → Except ParseFault (β × List Char)} (h : Yields P x)
    (hf : ∀ a rest, P a → Yields Q (f (a, rest))) : Yields Q (x >>= f) := by
  cases x with
  | error why => exact .error Q why
  | ok read => exact hf read.1 read.2 (h read.1 read.2 rfl)

theorem yields_of_forall {P : α → Prop} (h : ∀ a, P a) (x : Except ParseFault (α × List Char)) :
    Yields P x := fun a _ _ => h a

theorem lt_of_mem_spanDigits (cs : List Char) : ∀ d ∈ (Decimal.spanDigits cs).1, d < 10 :=
  Numeral.lt_of_mem_values fun _ hc => List.mem_takeWhile_imp hc

theorem lt_of_mem_readWhole? {ds : List Nat} {rest : List Char}
    (h : readWhole? cs = some (ds, rest)) : ∀ d ∈ ds, d < 10 := by
  have hdigits := lt_of_mem_spanDigits cs
  unfold readWhole? at h
  split at h
  · cases h
  · cases h
    simp
  · next hspan =>
      cases h
      rwa [hspan] at hdigits

theorem yields_unsigned (negative : Bool) (cs : List Char) :
    Yields Value.WellFormed (unsigned negative cs) := by
  unfold unsigned
  split
  · exact .error _ _
  · next whole rest hwhole =>
      dsimp only
      split
      · split
        · exact .error _ _
        · next hlength =>
            refine .ok (.int ?_) _
            have habs : (Numeral.signed negative (Numeral.valueOf whole)).natAbs =
                Numeral.valueOf whole := by
              unfold Numeral.signed
              split <;> simp
            rw [Numeral.Fits, habs]
            exact Numeral.valueOf_lt_tenTo (lt_of_mem_readWhole? hwhole) (Nat.not_lt.mp hlength)
      · exact .ok (.float (Binary64.isRegular_ofDecimal _ _ _)) _

theorem yields_number (cs : List Char) : Yields Value.WellFormed (number cs) := by
  unfold number
  split
  · split
    · exact .ok (.float trivial) _
    · exact yields_unsigned true _
  · exact yields_unsigned false _

theorem wellFormed_of_readWord? {v : Value} {rest : List Char}
    (h : readWord? cs = some (v, rest)) : v.WellFormed := by
  obtain ⟨⟨word, w⟩, hmem, hword⟩ := List.exists_of_findSome?_eq_some h
  obtain ⟨tail, -, heq⟩ := Option.map_eq_some_iff.mp hword
  cases heq
  simp only [words, List.mem_cons, List.not_mem_nil, or_false] at hmem
  rcases hmem with hcase | hcase | hcase | hcase | hcase <;> cases hcase
  · exact .null
  · exact .bool true
  · exact .bool false
  · exact .float trivial
  · exact .float trivial

theorem yields_value (fuel : Nat) :
    (∀ cs, Yields Value.WellFormed (value fuel cs)) ∧
      (∀ cs, Yields (∀ v ∈ ·, Value.WellFormed v) (items fuel cs)) ∧
      ∀ cs, Yields (∀ m ∈ ·, Value.WellFormed m.2) (members fuel cs) := by
  -- The three readers call each other, each time with less fuel.
  induction fuel with
  | zero => exact ⟨fun _ => .error _ _, fun _ => .error _ _, fun _ => .error _ _⟩
  | succ fuel ih =>
      obtain ⟨hvalue, hitems, hmembers⟩ := ih
      refine ⟨fun cs => ?_, fun cs => ?_, fun cs => ?_⟩
      · rw [value.eq_def]
        dsimp only
        split
        · exact .bind (yields_of_forall (fun _ => trivial) _) fun s _ _ => .ok (.str s) _
        · split
          · exact .ok (.list (by simp)) _
          · exact .bind (hitems _) fun vs _ hvs => .ok (.list hvs) _
        · split
          · exact .ok (.object (by simp) (by simp)) _
          · exact .bind (hmembers _) fun pairs _ hpairs => .ok (Value.wellFormed_ofPairs hpairs) _
        · split
          · next hword => exact .ok (wellFormed_of_readWord? hword) _
          · exact yields_number cs
      · rw [items.eq_def]
        refine .bind (hvalue cs) fun v rest hv => ?_
        dsimp only
        split
        · exact .ok (by simpa using hv) _
        · exact .bind (hitems _) fun vs _ hvs => .ok (List.forall_mem_cons.mpr ⟨hv, hvs⟩) _
        · exact .error _ _
      · rw [members.eq_def]
        dsimp only
        split
        · refine .bind (yields_of_forall (fun _ => trivial) _) fun key rest _ => ?_
          dsimp only
          split
          · refine .bind (hvalue _) fun v rest hv => ?_
            dsimp only
            split
            · exact .ok (by simpa using hv) _
            · refine .bind (hmembers _) fun more rest hmore => .ok ?_ rest
              exact (List.forall_mem_cons (p := fun m : String × Value => m.2.WellFormed)).mpr
                ⟨hv, hmore⟩
            · exact .error _ _
          · exact .error _ _
        · exact .error _ _

theorem wellFormed_of_parse {s : String} {v : Value} (h : parse s = .ok v) : v.WellFormed := by
  have hyields := (yields_value ((skipWhite s.toList).length + 1)).1 (skipWhite s.toList)
  unfold parse at h
  dsimp only at h
  generalize value ((skipWhite s.toList).length + 1) (skipWhite s.toList) = read at h hyields
  cases read with
  | error why => cases h
  | ok read =>
      simp only [bind, Except.bind] at h
      split at h
      · cases h
        exact hyields read.1 read.2 rfl
      · cases h

end Json

end HdfsBrowser
