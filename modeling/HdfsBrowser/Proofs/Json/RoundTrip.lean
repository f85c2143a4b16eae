import HdfsBrowser.Proofs.Json.Decimal
import HdfsBrowser.Proofs.Json.Escape
import HdfsBrowser.Proofs.Json.WellFormed

/-!
# Reading what was written

A well-formed value is read back from its text in either layout, with its
members in their order.  The texts read back are exactly those of well-formed
values.
-/

namespace HdfsBrowser.Json

open Numeral (digits)

variable {layout : Layout} {v : Value} {cs rest white : List Char} {fuel : Nat}

/-! ## White space -/

def IsWhiteSpace (cs : List Char) : Prop := ∀ c ∈ cs, isWhite c = true

theorem skipWhite_append (h : IsWhiteSpace white) (cs : List Char) :
    skipWhite (white ++ cs) = skipWhite cs :=
  List.dropWhile_append_of_pos h

theorem skipWhite_cons {c : Char} (h : isWhite c = false) (cs : List Char) :
    skipWhite (c :: cs) = c :: cs :=
  List.dropWhile_cons_of_neg (by simp [h])

theorem isWhiteSpace_newline (depth : Nat) : IsWhiteSpace (newline depth) := by
  intro c hc
  rcases List.mem_cons.mp hc with rfl | hblank
  · rfl
  · rw [List.eq_of_mem_replicate hblank]
    rfl

theorem isWhiteSpace_opening (layout : Layout) : IsWhiteSpace layout.opening := by
  cases layout with
  | inline => exact nofun
  | indented depth => exact isWhiteSpace_newline depth

def Layout.gap : Layout → List Char
  | .inline => [' ']
  | .indented depth => newline depth

theorem between_eq (layout : Layout) : layout.between = ',' :: layout.gap := by
  cases layout <;> rfl

theorem isWhiteSpace_gap (layout : Layout) : IsWhiteSpace layout.gap := by
  cases layout with
  | inline => simp [IsWhiteSpace, Layout.gap, isWhite]
  | indented depth => exact isWhiteSpace_newline depth

theorem stops_append_of_isWhiteSpace (hwhite : IsWhiteSpace white) (h : Stops rest) :
    Stops (white ++ rest) := by
  cases white with
  | nil => exact h
  | cons c white =>
      refine stops_cons ?_ _
      have hc := hwhite c List.mem_cons_self
      simp only [isWhite, Bool.or_eq_true, beq_iff_eq] at hc
      obtain ((rfl | rfl) | rfl) | rfl := hc <;> decide

/-! ## Numbers and words -/

structure StartsNumeral (cs : List Char) : Prop where
  nonempty : cs ≠ []
  head : ∀ c ∈ cs.head?, c = '-' ∨ c.isDigit = true

theorem readWord?_of_startsNumeral (h : StartsNumeral cs) : readWord? cs = none := by
  obtain ⟨c, cs, rfl⟩ := List.exists_cons_of_ne_nil h.nonempty
  have hc := h.head c rfl
  have hfirst (first : Char) (word : List Char) (hletter : first.isDigit = false ∧ first ≠ '-') :
      (first :: word).isPrefixOf (c :: cs) = false := by
    have hne : first ≠ c := by
      rintro rfl
      simp [hletter] at hc
    simp [List.isPrefixOf, hne]
  simp only [readWord?, words, List.findSome?_cons, List.findSome?_nil, afterWord?]
  have hnull := hfirst 'n' ['u', 'l', 'l'] (by decide)
  have htrue := hfirst 't' ['r', 'u', 'e'] (by decide)
  have hfalse := hfirst 'f' ['a', 'l', 's', 'e'] (by decide)
  have hnan := hfirst 'N' ['a', 'N'] (by decide)
  have hinfinity := hfirst 'I' ['n', 'f', 'i', 'n', 'i', 't', 'y'] (by decide)
  simp [hnull, htrue, hfalse, hnan, hinfinity]

theorem value_of_startsNumeral (h : StartsNumeral cs) (fuel : Nat) :
    value (fuel + 1) cs = number cs := by
  have hword := readWord?_of_startsNumeral h
  rw [value.eq_def]
  dsimp only
  split
  · exact absurd (h.head '"' rfl) (by decide)
  · exact absurd (h.head '[' rfl) (by decide)
  · exact absurd (h.head '\x7b' rfl) (by decide)
  · rw [hword]

/-! ### Numerals -/

def signChars (negative : Bool) : List Char := if negative then ['-'] else []

def StartsDigit (cs : List Char) : Prop := ∃ c tail, cs = c :: tail ∧ c.isDigit = true

theorem StartsDigit.append (h : StartsDigit cs) (rest : List Char) : StartsDigit (cs ++ rest) := by
  obtain ⟨c, tail, rfl, hc⟩ := h
  exact ⟨c, tail ++ rest, rfl, hc⟩

theorem startsDigit_of_isWhole {ws : List Char} (h : IsWhole ws) : StartsDigit ws := by
  obtain ⟨c, tail, rfl⟩ := List.exists_cons_of_ne_nil h.nonempty
  exact ⟨c, tail, rfl, h.digits c List.mem_cons_self⟩

theorem startsDigit_finiteChars {m : Nat} {e : Int} (h : Binary64.Regular m e) :
    StartsDigit (Decimal.finiteChars m e) := by
  rcases Nat.eq_zero_or_pos m with rfl | hm
  · exact ⟨'0', ['.', '0'], rfl, rfl⟩
  · obtain ⟨x, ⟨p, hwritten, hchars, -⟩, -⟩ := denotes_finiteChars h hm
    exact hchars ▸ (startsDigit_of_isWhole hwritten.whole).append _

theorem startsNumeral_sign (negative : Bool) (h : StartsDigit cs) :
    StartsNumeral (signChars negative ++ cs) := by
  obtain ⟨c, tail, rfl, hc⟩ := h
  cases negative with
  | false => exact ⟨by simp [signChars], by simp [signChars, hc]⟩
  | true => exact ⟨by simp [signChars], by simp [signChars]⟩

theorem number_sign (negative : Bool) (h : StartsDigit cs) :
    number (signChars negative ++ cs) = unsigned negative cs := by
  obtain ⟨c, tail, rfl, hc⟩ := h
  cases negative with
  | false =>
      change number (c :: tail) = _
      unfold number
      split
      · next heq =>
          obtain ⟨rfl, -⟩ := List.cons.inj heq
          exact absurd hc (by decide)
      · rfl
  | true =>
      have hword : afterWord? "Infinity" (c :: tail) = none := by
        have hne : 'I' ≠ c := by
          rintro rfl
          exact absurd hc (by decide)
        simp [afterWord?, List.isPrefixOf, hne]
      change number ('-' :: c :: tail) = _
      simp only [number, hword]

theorem value_numeral (negative : Bool) (h : StartsDigit cs)
    (hread : unsigned negative (cs ++ rest) = .ok (v, rest)) (fuel : Nat) :
    value (fuel + 1) (signChars negative ++ cs ++ rest) = .ok (v, rest) := by
  have hstarts := h.append rest
  rw [List.append_assoc, value_of_startsNumeral (startsNumeral_sign negative hstarts),
    number_sign negative hstarts, hread]

theorem numeral_chars (n : Int) :
    Numeral.chars n = signChars (decide (n < 0)) ++ digits n.natAbs := by
  cases n with
  | ofNat n => rfl
  | negSucc n =>
      rw [decide_eq_true (Int.negSucc_lt_zero n)]
      rfl

theorem floatChars_finite (negative : Bool) (m : Nat) (e : Int) :
    floatChars (.finite negative m e) = signChars negative ++ Decimal.finiteChars m e :=
  String.toList_ofList

theorem value_intChars {n : Int} (hfits : Numeral.Fits n) (hrest : Stops rest) (fuel : Nat) :
    value (fuel + 1) (Numeral.chars n ++ rest) = .ok (.int n, rest) := by
  rw [numeral_chars]
  refine value_numeral _ (startsDigit_of_isWhole (isWhole_digits _)) ?_ fuel
  rw [unsigned_digits _ hfits hrest, Numeral.signed_natAbs]

theorem value_floatChars {x : Binary64} (hregular : x.IsRegular) (hrest : Stops rest)
    (fuel : Nat) : value (fuel + 1) (floatChars x ++ rest) = .ok (.float x, rest) := by
  cases x with
  | nan => rfl
  | infinite negative => cases negative <;> rfl
  | finite negative m e =>
      rw [floatChars_finite]
      exact value_numeral _ (startsDigit_finiteChars hregular)
        (unsigned_finiteChars hregular negative hrest) fuel

/-! ## First characters -/

def StartsValue (cs : List Char) : Prop := ∃ c tail, cs = c :: tail ∧ isWhite c = false ∧ c ≠ ']'

theorem StartsNumeral.startsValue (h : StartsNumeral cs) : StartsValue cs := by
  obtain ⟨c, tail, rfl⟩ := List.exists_cons_of_ne_nil h.nonempty
  refine ⟨c, tail, rfl, ?_⟩
  rcases h.head c rfl with rfl | hdigit
  · decide
  · obtain ⟨hlow, hhigh⟩ := Text.bounds_of_isDigit hdigit
    have hne {other : Char} (hother : other.toNat < 48 ∨ 57 < other.toNat) : c ≠ other := by
      rintro rfl
      omega
    simp [isWhite, hne]

theorem startsValue_chars (layout : Layout) (h : v.WellFormed) : StartsValue (chars layout v) := by
  cases h with
  | null => exact ⟨_, _, rfl, by decide⟩
  | bool b => cases b <;> exact ⟨_, _, rfl, by decide⟩
  | @int n h =>
      rw [chars, numeral_chars]
      exact (startsNumeral_sign _ (startsDigit_of_isWhole (isWhole_digits _))).startsValue
  | @float x h =>
      cases x with
      | nan => exact ⟨_, _, rfl, by decide⟩
      | infinite negative => cases negative <;> exact ⟨_, _, rfl, by decide⟩
      | finite negative m e =>
          rw [chars, floatChars_finite]
          exact (startsNumeral_sign _ (startsDigit_finiteChars h)).startsValue
  | str s => exact ⟨_, _, rfl, by decide⟩
  | @list items h => cases items <;> exact ⟨_, _, rfl, by decide⟩
  | @object members hkeys h => cases members <;> exact ⟨_, _, rfl, by decide⟩

/-! ## Values -/

theorem insert_of_notMem {key : String} {members : List (String × Value)}
    (h : key ∉ members.map (·.1)) : Value.insert key v members = members ++ [(key, v)] := by
  induction members with
  | nil => rfl
  | cons m members ih =>
      rw [List.map_cons, List.mem_cons, not_or] at h
      rw [Value.insert, if_neg (Ne.symm h.1), ih h.2]
      rfl

theorem foldl_insert (done : List (String × Value)) {members : List (String × Value)}
    (h : ((done ++ members).map (·.1)).Nodup) :
    members.foldl (fun done (k, v) => Value.insert k v done) done = done ++ members := by
  induction members generalizing done with
  | nil => simp
  | cons m members ih =>
      obtain ⟨key, v⟩ := m
      have hnew : key ∉ done.map (·.1) := by
        rw [List.map_append, List.map_cons] at h
        exact fun hmem => List.disjoint_of_nodup_append h hmem List.mem_cons_self
      rw [List.append_cons] at h
      rw [List.foldl_cons]
      dsimp only
      rw [insert_of_notMem hnew, ih _ h, List.append_assoc]
      rfl

theorem ofPairs_of_nodup {members : List (String × Value)} (h : (members.map (·.1)).Nodup) :
    Value.ofPairs members = members :=
  foldl_insert [] h

/-- How many steps the readers need at most for what was written. -/
structure Reads (fuel : Nat) : Prop where
  value : ∀ layout rest {v}, v.WellFormed → Stops rest → (chars layout v).length < fuel →
    Json.value fuel (chars layout v ++ rest) = .ok (v, rest)
  items : ∀ layout rest {v vs white}, (∀ w ∈ v :: vs, w.WellFormed) → IsWhiteSpace white →
    (chars layout v).length + (itemChars layout vs).length + 1 < fuel →
    Json.items fuel (chars layout v ++ (itemChars layout vs ++ (white ++ ']' :: rest))) =
      .ok (v :: vs, rest)
  members : ∀ layout rest {key v more white},
    (∀ m ∈ (key, v) :: more, Value.WellFormed m.2) → IsWhiteSpace white →
    (closing key).length + (chars layout v).length + (memberChars layout more).length + 1 < fuel →
    Json.members fuel ('"' :: (closing key ++ (':' :: ' ' :: (chars layout v ++
      (memberChars layout more ++ (white ++ '\x7d' :: rest)))))) = .ok ((key, v) :: more, rest)

/-! ### One step -/

section

variable {last after : List Char} {vs : List Value} {key : String} {more : List (String × Value)}

theorem items_last (hvalue : Json.value fuel cs = .ok (v, rest))
    (hskip : skipWhite rest = ']' :: last) : items (fuel + 1) cs = .ok ([v], last) := by
  rw [items, hvalue]
  simp only [bind, Except.bind]
  rw [hskip]
  rfl

theorem items_more (hvalue : Json.value fuel cs = .ok (v, rest))
    (hskip : skipWhite rest = ',' :: after)
    (hitems : items fuel (skipWhite after) = .ok (vs, last)) :
    items (fuel + 1) cs = .ok (v :: vs, last) := by
  rw [items, hvalue]
  simp only [bind, Except.bind]
  rw [hskip]
  simp only [hitems]

theorem members_last (hkey : string fuel cs = .ok (key, ':' :: after))
    (hvalue : Json.value fuel (skipWhite after) = .ok (v, rest))
    (hskip : skipWhite rest = '\x7d' :: last) :
    members (fuel + 1) ('"' :: cs) = .ok ([(key, v)], last) := by
  rw [members, hkey]
  simp only [bind, Except.bind]
  rw [skipWhite_cons (by decide)]
  simp only [hvalue]
  rw [hskip]
  rfl

theorem members_more (hkey : string fuel cs = .ok (key, ':' :: after))
    (hvalue : Json.value fuel (skipWhite after) = .ok (v, rest)) {tail : List Char}
    (hskip : skipWhite rest = ',' :: tail)
    (hmore : members fuel (skipWhite tail) = .ok (more, last)) :
    members (fuel + 1) ('"' :: cs) = .ok ((key, v) :: more, last) := by
  rw [members, hkey]
  simp only [bind, Except.bind]
  rw [skipWhite_cons (by decide)]
  simp only [hvalue]
  rw [hskip]
  simp only [hmore]

end

theorem stops_bracket (hwhite : IsWhiteSpace white) {bracket : Char}
    (h : bracket = ']' ∨ bracket = '\x7d') (rest : List Char) :
    Stops (white ++ bracket :: rest) := by
  refine stops_append_of_isWhiteSpace hwhite (stops_cons ?_ rest)
  rcases h with rfl | rfl <;> decide

theorem skipWhite_bracket (hwhite : IsWhiteSpace white) {bracket : Char}
    (h : bracket = ']' ∨ bracket = '\x7d') (rest : List Char) :
    skipWhite (white ++ bracket :: rest) = bracket :: rest := by
  rw [skipWhite_append hwhite]
  rcases h with rfl | rfl <;> exact skipWhite_cons (by decide) rest

theorem stops_between (layout : Layout) (rest : List Char) : Stops (layout.between ++ rest) := by
  rw [between_eq]
  exact stops_cons (by decide) _

theorem skipWhite_between (layout : Layout) (rest : List Char) :
    skipWhite (layout.between ++ rest) = ',' :: (layout.gap ++ rest) := by
  rw [between_eq]
  exact skipWhite_cons (by decide) _

theorem skipWhite_startsValue (hwhite : IsWhiteSpace white) (h : StartsValue cs)
    (rest : List Char) : skipWhite (white ++ (cs ++ rest)) = cs ++ rest := by
  obtain ⟨c, tail, rfl, hc, -⟩ := h
  rw [skipWhite_append hwhite]
  exact skipWhite_cons hc _

theorem Reads.value_list (h : Reads fuel) {vs : List Value} (hvs : ∀ w ∈ v :: vs, w.WellFormed)
    (hlength : (chars layout (.list (v :: vs))).length < fuel + 1) (rest : List Char) :
    Json.value (fuel + 1) (chars layout (.list (v :: vs)) ++ rest) =
      .ok (.list (v :: vs), rest) := by
  have hitems := h.items layout.deeper rest hvs
    (isWhiteSpace_opening layout) (by simp [chars] at hlength; omega)
  have hstarts := startsValue_chars layout.deeper (hvs v List.mem_cons_self)
  have hskip := skipWhite_startsValue (isWhiteSpace_opening layout.deeper) hstarts
    (itemChars layout.deeper vs ++ (layout.opening ++ ']' :: rest))
  obtain ⟨c, tail, hstart, -, hc⟩ := hstarts
  rw [chars]
  simp only [List.cons_append, List.append_assoc, List.nil_append]
  rw [Json.value, hskip]
  rw [hstart] at hitems ⊢
  split
  · next heq => exact absurd (List.cons.inj heq).1 hc
  · rw [hitems]
    rfl

theorem Reads.value_object (h : Reads fuel) {key : String} {more : List (String × Value)}
    (hmembers : (Value.object ((key, v) :: more)).WellFormed)
    (hlength : (chars layout (.object ((key, v) :: more))).length < fuel + 1) (rest : List Char) :
    Json.value (fuel + 1) (chars layout (.object ((key, v) :: more)) ++ rest) =
      .ok (.object ((key, v) :: more), rest) := by
  have hread := h.members layout.deeper rest hmembers.of_mem
    (isWhiteSpace_opening layout) (by simp [chars, stringChars_eq] at hlength; omega)
  have hskip (tail : List Char) : skipWhite (layout.deeper.opening ++ '"' :: tail) = '"' :: tail :=
    skipWhite_startsValue (isWhiteSpace_opening layout.deeper) ⟨'"', [], rfl, by decide⟩ tail
  rw [chars]
  simp only [stringChars_eq, List.cons_append, List.append_assoc, List.nil_append]
  rw [Json.value, hskip]
  split
  · next heq => exact absurd (List.cons.inj heq).1 (by decide)
  · rw [hread]
    simp only [bind, Except.bind, ofPairs_of_nodup hmembers.keys]

theorem Reads.items_succ (h : Reads fuel) {vs : List Value} (hvs : ∀ w ∈ v :: vs, w.WellFormed)
    (hwhite : IsWhiteSpace white)
    (hlength : (chars layout v).length + (itemChars layout vs).length + 1 < fuel + 1)
    (rest : List Char) :
    Json.items (fuel + 1) (chars layout v ++ (itemChars layout vs ++ (white ++ ']' :: rest))) =
      .ok (v :: vs, rest) := by
  obtain ⟨hv, hvs⟩ := List.forall_mem_cons.mp hvs
  cases vs with
  | nil =>
      exact items_last (h.value layout _ hv (stops_bracket hwhite (.inl rfl) rest) (by omega))
        (skipWhite_bracket hwhite (.inl rfl) rest)
  | cons w ws =>
      have hw := startsValue_chars layout (hvs w List.mem_cons_self)
      simp only [itemChars, between_eq, List.length_append, List.length_cons] at hlength
      rw [itemChars, List.append_assoc, List.append_assoc]
      refine items_more (h.value layout _ hv (stops_between layout _) (by omega))
        (skipWhite_between layout _) ?_
      rw [skipWhite_startsValue (isWhiteSpace_gap layout) hw]
      exact h.items layout rest hvs hwhite (by omega)

theorem Reads.members_succ (h : Reads fuel) {key : String} {more : List (String × Value)}
    (hmembers : ∀ m ∈ (key, v) :: more, Value.WellFormed m.2) (hwhite : IsWhiteSpace white)
    (hlength : (closing key).length + (chars layout v).length + (memberChars layout more).length +
      1 < fuel + 1) (rest : List Char) :
    Json.members (fuel + 1) ('"' :: (closing key ++ (':' :: ' ' :: (chars layout v ++
      (memberChars layout more ++ (white ++ '\x7d' :: rest)))))) =
        .ok ((key, v) :: more, rest) := by
  have hv : v.WellFormed := hmembers _ List.mem_cons_self
  have hmore := (List.forall_mem_cons.mp hmembers).2
  have hblank : IsWhiteSpace [' '] := by simp [IsWhiteSpace, isWhite]
  have hvalue {after : List Char} (hstops : Stops after) :
      Json.value fuel (skipWhite (' ' :: (chars layout v ++ after))) = .ok (v, after) := by
    rw [← List.singleton_append, skipWhite_startsValue hblank (startsValue_chars layout hv)]
    exact h.value layout _ hv hstops (by omega)
  cases more with
  | nil =>
      exact members_last (string_closing (by omega) _)
        (hvalue (stops_bracket hwhite (.inr rfl) rest)) (skipWhite_bracket hwhite (.inr rfl) rest)
  | cons m more =>
      obtain ⟨next, w⟩ := m
      have hmark : StartsValue ['"'] := ⟨'"', [], rfl, by decide⟩
      simp only [memberChars, between_eq, stringChars_eq, List.length_append, List.length_cons,
        List.length_nil] at hlength
      simp only [memberChars, stringChars_eq, List.append_assoc, List.cons_append, List.nil_append]
      refine members_more (string_closing (by omega) _) (hvalue (stops_between layout _))
        (skipWhite_between layout _) ?_
      rw [← List.singleton_append, skipWhite_startsValue (isWhiteSpace_gap layout) hmark]
      exact h.members layout rest hmore hwhite (by omega)

theorem value_string (fuel : Nat) (cs : List Char) :
    Json.value (fuel + 1) ('"' :: cs) = (string fuel cs).map fun (s, rest) => (.str s, rest) := by
  rw [Json.value]
  cases string fuel cs <;> rfl

/-- The readers give back what was written, in no more steps than it has characters. -/
theorem reads (fuel : Nat) : Reads fuel := by
  induction fuel with
  | zero =>
      exact ⟨fun _ _ _ _ _ h => absurd h (Nat.not_lt_zero _),
        fun _ _ _ _ _ _ _ h => absurd h (Nat.not_lt_zero _),
        fun _ _ _ _ _ _ _ _ h => absurd h (Nat.not_lt_zero _)⟩
  | succ fuel ih =>
      -- A list or an object costs one step more than its parts, and it is longer than they are.
      refine ⟨fun layout rest v hv hrest hlength => ?_, fun _ rest _ _ _ hvs hwhite hlength =>
        ih.items_succ hvs hwhite hlength rest, fun _ rest _ _ _ _ hmembers hwhite hlength =>
        ih.members_succ hmembers hwhite hlength rest⟩
      cases v with
      | null => rfl
      | bool b => cases b <;> rfl
      | int n =>
          cases hv with
          | int hfits => exact value_intChars hfits hrest fuel
      | float x =>
          cases hv with
          | float hregular => exact value_floatChars hregular hrest fuel
      | str s =>
          rw [chars, stringChars_eq, List.length_cons] at hlength
          rw [chars, stringChars_eq, List.cons_append, value_string, string_closing (by omega)]
          rfl
      | list vs =>
          cases vs with
          | nil => rfl
          | cons v vs =>
              cases hv with
              | list hvs => exact ih.value_list hvs hlength rest
      | object members =>
          cases members with
          | nil => rfl
          | cons m more => exact ih.value_object hv hlength rest

/-! ## Texts -/

theorem parse_chars (layout : Layout) (hv : v.WellFormed) (hwhite : IsWhiteSpace white) :
    parse (String.ofList (chars layout v ++ white)) = .ok v := by
  obtain ⟨c, tail, hstart, hc, -⟩ := startsValue_chars layout hv
  have hskip : skipWhite (chars layout v ++ white) = chars layout v ++ white := by
    rw [hstart]
    exact skipWhite_cons hc _
  have hstops : Stops white := by
    rw [← List.append_nil white]
    exact stops_append_of_isWhiteSpace hwhite stops_nil
  have hlast : skipWhite white = [] := by
    rw [← List.append_nil white, skipWhite_append hwhite]
    rfl
  unfold parse
  rw [String.toList_ofList, hskip]
  dsimp only
  rw [(reads _).value layout white hv hstops (by rw [List.length_append]; omega)]
  simp only [bind, Except.bind, hlast, List.isEmpty_nil, ↓reduceIte]

/-- The values that are read back from what is written are exactly those of texts. -/
theorem parse_document_iff (v : Value) : parse (document v) = .ok v ↔ v.WellFormed := by
  refine ⟨wellFormed_of_parse, fun hv => ?_⟩
  have hparse := parse_chars (.indented 0) hv (show IsWhiteSpace [] from nofun)
  rwa [List.append_nil] at hparse

end HdfsBrowser.Json
