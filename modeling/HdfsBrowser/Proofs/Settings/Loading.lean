import HdfsBrowser.Proofs.Json.Consumption
import HdfsBrowser.Proofs.Json.WellFormed
import HdfsBrowser.Proofs.Listing.Projection
import HdfsBrowser.Proofs.Number.Binary64
import HdfsBrowser.Settings.Store

/-!
# Loading of settings

A setting that does not convert leaves its default, and a file that holds no
object counts as missing.  Four things are not seen through: a file that is no
text, an integer with more digits than are converted, a time limit that is an
integer out of the range of the numbers with a point, and a size without bound.
Loading gives settings exactly when the file has none of them.
-/

namespace HdfsBrowser

namespace Value

variable {v : Value} {why : Fault}

theorem isIgnored_of_asText (h : v.asText = .error why) : Settings.isIgnored why = true := by
  unfold asText at h
  cases hwrite : v.write with
  | ok text => simp [hwrite, Except.mapError] at h
  | error fault =>
      rw [hwrite] at h
      cases h
      rfl

theorem asFloat_eq_error (h : v.asFloat = .error why) :
    Settings.isIgnored why = true ∨
      why = .tooLarge ∧ ∃ n, v = .int n ∧ Binary64.overflow ≤ n.natAbs := by
  cases v with
  | null | list items | object members =>
      cases h
      exact .inl rfl
  | bool b | float x => cases h
  | int n =>
      simp only [asFloat] at h
      split at h
      · cases h
      · next hinfinite =>
          cases h
          rw [Binary64.isFinite_ofInt_iff, Nat.not_lt] at hinfinite
          exact .inr ⟨rfl, n, rfl, hinfinite⟩
  | str s =>
      simp only [asFloat] at h
      split at h
      · cases h
      · cases h
        exact .inl rfl

theorem asFloat_of_overflow {n : Int} (h : Binary64.overflow ≤ n.natAbs) :
    (Value.int n).asFloat = .error .tooLarge := by
  simp only [asFloat]
  rw [if_neg]
  rw [Binary64.isFinite_ofInt_iff]
  exact Nat.not_lt.mpr h

theorem isIgnored_of_asInteger (h : v.asInteger = .error why) :
    Settings.isIgnored why = true ∨ why = .tooLarge ∧ v.IsUnbounded :=
  (family_of_asInteger h).imp_left fun hfamily => by simpa [Settings.isIgnored] using hfamily

end Value

namespace Settings

variable {members : List (String × Value)} {s t : Settings} {key : Key} {v : Value}

/-! ## One setting -/

def Key.convert (key : Key) (v : Value) : Except Fault Value :=
  match key with
  | .gateway | .service | .user => v.asText.map .str
  | .timeout => v.asFloat.map .float
  | .tailChunk => v.asInteger.map .int

inductive Key.Overflows : Key → Value → Prop
  | timeout {n : Int} (h : Binary64.overflow ≤ n.natAbs) : Overflows .timeout (.int n)
  | tailChunk {v : Value} (h : v.IsUnbounded) : Overflows .tailChunk v

theorem Key.convert_of_overflows (h : key.Overflows v) : key.convert v = .error .tooLarge := by
  cases h with
  | timeout h => rw [convert, Value.asFloat_of_overflow h, Except.map]
  | tailChunk h => rw [convert, Value.asInteger_of_isUnbounded h, Except.map]

theorem map_eq_error {α : Type} {f : α → Value} {x : Except Fault α} {why : Fault}
    (h : x.map f = .error why) : x = .error why := by
  cases x with
  | ok a => cases h
  | error fault =>
      cases h
      rfl

theorem Key.convert_eq_error {why : Fault} (h : key.convert v = .error why) :
    isIgnored why = true ∨ why = .tooLarge ∧ key.Overflows v := by
  cases key with
  | gateway | service | user => exact .inl (Value.isIgnored_of_asText (map_eq_error h))
  | timeout =>
      rcases Value.asFloat_eq_error (map_eq_error h) with hignored | ⟨rfl, n, rfl, hlarge⟩
      · exact .inl hignored
      · exact .inr ⟨rfl, .timeout hlarge⟩
  | tailChunk =>
      rcases Value.isIgnored_of_asInteger (map_eq_error h) with hignored | ⟨rfl, hunbounded⟩
      · exact .inl hignored
      · exact .inr ⟨rfl, .tailChunk hunbounded⟩

structure Changes (s t : Settings) (key : Key) (w : Value) : Prop where
  changed : t.get key = w
  others : ∀ other, other ≠ key → t.get other = s.get other

theorem set_of_convert_error {why : Fault} (h : key.convert v = .error why) (s : Settings) :
    s.set key v = .error why := by
  cases key <;> simp only [set, map_eq_error h, Except.map]

theorem set_of_convert {w : Value} (h : key.convert v = .ok w) (s : Settings) :
    ∃ t, s.set key v = .ok t ∧ s.Changes t key w := by
  cases key with
  | gateway | service | user =>
      cases htext : v.asText with
      | error why => simp [Key.convert, htext, Except.map] at h
      | ok text =>
          simp only [Key.convert, htext, Except.map, Except.ok.injEq] at h
          simp only [set, htext, Except.map]
          refine ⟨_, rfl, h, fun other hne => ?_⟩
          cases other <;> simp_all [get]
  | timeout =>
      cases hfloat : v.asFloat with
      | error why => simp [Key.convert, hfloat, Except.map] at h
      | ok x =>
          simp only [Key.convert, hfloat, Except.map, Except.ok.injEq] at h
          simp only [set, hfloat, Except.map]
          refine ⟨_, rfl, h, fun other hne => ?_⟩
          cases other <;> simp_all [get]
  | tailChunk =>
      cases hinteger : v.asInteger with
      | error why => simp [Key.convert, hinteger, Except.map] at h
      | ok n =>
          simp only [Key.convert, hinteger, Except.map, Except.ok.injEq] at h
          simp only [set, hinteger, Except.map]
          refine ⟨_, rfl, h, fun other hne => ?_⟩
          cases other <;> simp_all [get]

/-! ## All settings -/

/-- The value of a setting: what the members give for it if that converts, else its default. -/
def taken (members : List (String × Value)) (key : Key) : Value :=
  ((Value.lookup? key.name members).bind fun v => (key.convert v).toOption).getD (default.get key)

def OverflowsIn (members : List (String × Value)) (key : Key) : Prop :=
  ∃ v, Value.lookup? key.name members = some v ∧ key.Overflows v

def UnreportedIn (members : List (String × Value)) (key : Key) : Prop :=
  ∃ v why, Value.lookup? key.name members = some v ∧ key.convert v = .error why ∧
    v.printable = false

def EscapesIn (members : List (String × Value)) (key : Key) : Prop :=
  OverflowsIn members key ∨ UnreportedIn members key

theorem not_unreportedIn_of_wellFormed (h : (Value.object members).WellFormed) (key : Key) :
    ¬ UnreportedIn members key := by
  rintro ⟨v, why, hlookup, -, hprint⟩
  have hv := (h.of_mem _ (Value.mem_of_lookup? hlookup)).printable
  simp [hprint] at hv

theorem escapesIn_iff_of_wellFormed (h : (Value.object members).WellFormed) :
    EscapesIn members key ↔ OverflowsIn members key :=
  or_iff_left (not_unreportedIn_of_wellFormed h key)

theorem escapesIn_congr {merged : List (String × Value)}
    (h : Value.lookup? key.name merged = Value.lookup? key.name members) :
    EscapesIn merged key ↔ EscapesIn members key := by
  simp only [EscapesIn, OverflowsIn, UnreportedIn, h]

theorem not_escapesIn_of_convert {w : Value} (hlookup : Value.lookup? key.name members = some v)
    (hconvert : key.convert v = .ok w) : ¬ EscapesIn members key := by
  rintro (⟨u, hu, hoverflows⟩ | ⟨u, why, hu, hfails, -⟩)
  · obtain rfl := Option.some.inj (hlookup.symm.trans hu)
    simp [Key.convert_of_overflows hoverflows] at hconvert
  · obtain rfl := Option.some.inj (hlookup.symm.trans hu)
    simp [hfails] at hconvert

theorem read_of_escapes (h : EscapesIn members key) (s : Settings) :
    ∃ why, read members s key = .error why := by
  rcases h with ⟨v, hlookup, hoverflows⟩ | ⟨v, why, hlookup, hconvert, hprint⟩
  · have hset := set_of_convert_error (Key.convert_of_overflows hoverflows) s
    exact ⟨.tooLarge, by simp only [read, hlookup, hset]; rfl⟩
  · have htext : v.asText = .error (.numeral (.tooLong none)) := by
      simp [Value.asText, Value.write, hprint, Except.mapError]
    simp only [read, hlookup, set_of_convert_error hconvert s, htext, Except.map]
    split
    · exact ⟨_, rfl⟩
    · exact ⟨why, rfl⟩

theorem read_of_not_escapes (h : ¬ EscapesIn members key)
    (hdefault : s.get key = default.get key) :
    ∃ t, read members s key = .ok t ∧ s.Changes t key (taken members key) := by
  unfold read taken
  cases hlookup : Value.lookup? key.name members with
  | none => exact ⟨s, rfl, hdefault, fun _ _ => rfl⟩
  | some v =>
      cases hconvert : key.convert v with
      | ok w =>
          obtain ⟨t, hset, hchanges⟩ := set_of_convert hconvert s
          refine ⟨t, by simp only [hset], ?_⟩
          simpa [hconvert, Except.toOption] using hchanges
      | error why =>
          rcases Key.convert_eq_error hconvert with hignored | ⟨-, hoverflows⟩
          · have hprint : v.printable = true := Bool.not_eq_false _ ▸ fun hprint =>
              h (.inr ⟨v, why, hlookup, hconvert, hprint⟩)
            refine ⟨s, ?_, ?_⟩
            · simp only [set_of_convert_error hconvert s, hignored, ↓reduceIte,
                Value.asText_of_printable hprint, Except.map]
            · have hsame : s.Changes s key (default.get key) := ⟨hdefault, fun _ _ => rfl⟩
              simpa [hconvert, Except.toOption] using hsame
          · exact absurd (.inl ⟨v, hlookup, hoverflows⟩) h

theorem foldlM_read {keys : List Key} (hnodup : keys.Nodup)
    (hdefault : ∀ key ∈ keys, s.get key = default.get key) :
    ((∃ key ∈ keys, EscapesIn members key) ∧
      ∃ why, keys.foldlM (read members) s = .error why) ∨
    ((∀ key ∈ keys, ¬ EscapesIn members key) ∧ ∃ t, keys.foldlM (read members) s = .ok t ∧
      (∀ key ∈ keys, t.get key = taken members key) ∧ ∀ key ∉ keys, t.get key = s.get key) := by
  induction keys generalizing s with
  | nil => exact .inr ⟨by simp, s, rfl, by simp, fun _ _ => rfl⟩
  | cons key keys ih =>
      obtain ⟨hnew, hnodup⟩ := List.nodup_cons.mp hnodup
      obtain ⟨hfirst, hrest⟩ := List.forall_mem_cons.mp hdefault
      by_cases hescapes : EscapesIn members key
      · obtain ⟨why, hread⟩ := read_of_escapes hescapes s
        refine .inl ⟨⟨key, List.mem_cons_self, hescapes⟩, why, ?_⟩
        rw [List.foldlM_cons, hread]
        rfl
      · obtain ⟨t, hread, hchanges⟩ := read_of_not_escapes hescapes hfirst
        have hkept : ∀ other ∈ keys, t.get other = default.get other := fun other hmem =>
          (hchanges.others other fun heq => hnew (heq ▸ hmem)).trans (hrest other hmem)
        rw [List.foldlM_cons, hread]
        rcases ih hnodup hkept with
          ⟨⟨other, hmem, hother⟩, hfold⟩ | ⟨hnone, u, hfold, htaken, hsame⟩
        · exact .inl ⟨⟨other, List.mem_cons_of_mem key hmem, hother⟩, hfold⟩
        · refine .inr ⟨List.forall_mem_cons.mpr ⟨hescapes, hnone⟩, u, hfold, ?_, ?_⟩
          · exact List.forall_mem_cons.mpr ⟨(hsame key hnew).trans hchanges.changed, htaken⟩
          · intro other hother
            rw [List.mem_cons, not_or] at hother
            exact (hsame other hother.2).trans (hchanges.others other hother.1)

theorem ofMembers_cases (members : List (String × Value)) :
    ((∃ key, EscapesIn members key) ∧ ∃ why, ofMembers members = .error why) ∨
    ((∀ key, ¬ EscapesIn members key) ∧
      ∃ t, ofMembers members = .ok t ∧ ∀ key, t.get key = taken members key) := by
  have hall (key : Key) : key ∈ Key.all := by cases key <;> decide
  rcases foldlM_read (s := default) (by decide : Key.all.Nodup) (fun _ _ => rfl) with
    ⟨⟨key, -, hescapes⟩, hfold⟩ | ⟨hnone, t, hfold, htaken, -⟩
  · exact .inl ⟨⟨key, hescapes⟩, hfold⟩
  · exact .inr ⟨fun key => hnone key (hall key), t, hfold, fun key => htaken key (hall key)⟩

end Settings

namespace SettingsStore

variable {store : SettingsStore} {file : SettingsFile} {text : String}

/-! ## The file -/

inductive IsMissing : SettingsStore → Prop
  | none : IsMissing none
  | malformed {file : SettingsFile} {text : String} (htext : Utf8.decode? file.content = some text)
      (hparse : Json.parse text = .error .malformed) : IsMissing (some file)
  | noObject {file : SettingsFile} {text : String} {v : Value}
      (htext : Utf8.decode? file.content = some text) (hparse : Json.parse text = .ok v)
      (hkind : v.kind ≠ .object) : IsMissing (some file)

/-- What nobody sees through: bytes that are no text, a numeral that is too long, and a value that
is too large for its setting. -/
inductive Breaks : SettingsStore → Prop
  | notText {file : SettingsFile} (htext : Utf8.decode? file.content = none) : Breaks (some file)
  | numeral {file : SettingsFile} {text : String} {why : NumeralFault}
      (htext : Utf8.decode? file.content = some text)
      (hparse : Json.parse text = .error (.numeral why))
      (hlong : Json.HasLongNumeral text.toList) : Breaks (some file)
  | tooLarge {file : SettingsFile} {text : String} {members : List (String × Value)}
      {key : Settings.Key} (htext : Utf8.decode? file.content = some text)
      (hparse : Json.parse text = .ok (.object members))
      (hoverflows : Settings.OverflowsIn members key) : Breaks (some file)

inductive Holds : SettingsStore → List (String × Value) → Prop
  | mk {file : SettingsFile} {text : String} {members : List (String × Value)}
      (htext : Utf8.decode? file.content = some text)
      (hparse : Json.parse text = .ok (.object members)) : Holds (some file) members

theorem read_of_isMissing (h : store.IsMissing) : store.read = .ok none := by
  cases h with
  | none => rfl
  | malformed htext hparse => simp only [read, htext, hparse]
  | @noObject file text v htext hparse hkind =>
      cases v with
      | object members => exact absurd rfl hkind
      | _ => simp only [read, htext, hparse]

theorem read_cases (store : SettingsStore) :
    (store.IsMissing ∧ store.read = .ok none) ∨
      (∃ members, store.Holds members ∧ store.read = .ok (some members)) ∨
      ∃ why, store.Breaks ∧ store.read = .error why := by
  cases store with
  | none => exact .inl ⟨.none, rfl⟩
  | some file =>
      cases htext : Utf8.decode? file.content with
      | none => exact .inr (.inr ⟨.notText, .notText htext, by simp only [read, htext]⟩)
      | some text =>
          cases hparse : Json.parse text with
          | error f =>
              cases f with
              | malformed =>
                  have hmissing : IsMissing (some file) := .malformed htext hparse
                  exact .inl ⟨hmissing, read_of_isMissing hmissing⟩
              | numeral why =>
                  exact .inr (.inr ⟨.numeral why,
                    .numeral htext hparse (Json.hasLongNumeral_of_parse hparse),
                    by simp only [read, htext, hparse]⟩)
          | ok v =>
              cases v with
              | object members =>
                  exact .inr (.inl ⟨members, .mk htext hparse, by simp only [read, htext, hparse]⟩)
              | _ =>
                  have hmissing : IsMissing (some file) :=
                    .noObject htext hparse (by simp [Value.kind])
                  exact .inl ⟨hmissing, read_of_isMissing hmissing⟩

theorem not_overflowsIn_nil (key : Settings.Key) : ¬ Settings.OverflowsIn [] key := by
  rintro ⟨v, hlookup, -⟩
  cases hlookup

theorem not_breaks_of_isMissing (h : store.IsMissing) : ¬ store.Breaks := by
  intro hbreaks
  cases h with
  | none => cases hbreaks
  | malformed htext hparse => cases hbreaks <;> simp_all
  | noObject htext hparse hkind => cases hbreaks <;> simp_all [Value.kind]

theorem breaks_of_holds {members : List (String × Value)} (h : store.Holds members) :
    store.Breaks ↔ ∃ key, Settings.OverflowsIn members key := by
  obtain ⟨htext, hparse⟩ := h
  constructor
  · intro hbreaks
    cases hbreaks with
    | notText htext' => simp [htext] at htext'
    | numeral htext' hparse' => simp_all
    | @tooLarge _ _ _ key htext' hparse' hoverflows =>
        obtain rfl := Option.some.inj (htext.symm.trans htext')
        rw [hparse] at hparse'
        cases hparse'
        exact ⟨key, hoverflows⟩
  · rintro ⟨key, hoverflows⟩
    exact .tooLarge htext hparse hoverflows

theorem wellFormed_of_read (hread : store.read = .ok found) :
    (Value.object (found.getD [])).WellFormed := by
  rcases store.read_cases with ⟨-, hmissing⟩ | ⟨members, ⟨-, hparse⟩, hholds⟩ | ⟨why, -, hbreaks⟩
  · rw [hread] at hmissing
    cases hmissing
    exact .object (by simp) (by simp)
  · rw [hread] at hholds
    cases hholds
    exact Json.wellFormed_of_parse hparse
  · rw [hread] at hbreaks
    cases hbreaks

def overridden (s : Settings) (gateway user : Option String) : Settings :=
  { s with
    gateway := Text.dropTrailing '/' (Settings.chosen gateway s.gateway)
    user := Settings.chosen user s.user }

theorem load_of_read {found : Option (List (String × Value))} (hread : store.read = .ok found)
    (gateway user : Option String) :
    ((∃ s, store.load gateway user = .ok s) ↔
      ∀ key, ¬ Settings.OverflowsIn (found.getD []) key) ∧
    ∀ s, store.load gateway user = .ok s → ∃ kept : Settings,
      (∀ key, kept.get key = Settings.taken (found.getD []) key) ∧
        s = overridden kept gateway user := by
  unfold load
  rw [hread]
  simp only [← Settings.escapesIn_iff_of_wellFormed (wellFormed_of_read hread)]
  rcases Settings.ofMembers_cases (found.getD []) with
    ⟨⟨key, hescapes⟩, why, hmembers⟩ | ⟨hnone, kept, hmembers, htaken⟩
  · simp only [bind, Except.bind, hmembers]
    refine ⟨iff_of_false (by simp) fun hall => hall key hescapes, fun s hs => ?_⟩
    cases hs
  · simp only [bind, Except.bind, hmembers]
    refine ⟨iff_of_true ⟨_, rfl⟩ hnone, fun s hs => ⟨kept, htaken, ?_⟩⟩
    exact (Except.ok.inj hs).symm

/-- Settings are loaded exactly when the file has nothing that nobody sees through.  A file without
an object counts as missing, and each setting is what the file gives for it if that converts. -/
theorem load_returns_iff (store : SettingsStore) (gateway user : Option String) :
    ((∃ s, store.load gateway user = .ok s) ↔ ¬ store.Breaks) ∧
    (store.read = .ok none ↔ store.IsMissing) ∧
    ∀ s, store.load gateway user = .ok s → ∃ (members : List (String × Value)) (kept : Settings),
      (store.IsMissing ∧ members = [] ∨ store.Holds members) ∧
      (∀ key, kept.get key = Settings.taken members key) ∧ s = overridden kept gateway user := by
  rcases store.read_cases with ⟨hmissing, hread⟩ | ⟨members, hholds, hread⟩ | ⟨why, hbreaks, hread⟩
  · obtain ⟨hreturns, hloads⟩ := load_of_read hread gateway user
    refine ⟨?_, iff_of_true hread hmissing, fun s hs => ?_⟩
    · rw [hreturns]
      exact iff_of_true not_overflowsIn_nil (not_breaks_of_isMissing hmissing)
    · obtain ⟨kept, htaken, hs⟩ := hloads s hs
      exact ⟨[], kept, .inl ⟨hmissing, rfl⟩, htaken, hs⟩
  · obtain ⟨hreturns, hloads⟩ := load_of_read hread gateway user
    refine ⟨?_, iff_of_false (by simp [hread]) fun hmissing => ?_, fun s hs => ?_⟩
    · rw [hreturns, breaks_of_holds hholds, not_exists]
      rfl
    · simp [read_of_isMissing hmissing] at hread
    · obtain ⟨kept, htaken, hs⟩ := hloads s hs
      exact ⟨members, kept, .inr hholds, htaken, hs⟩
  · have hload : store.load gateway user = .error why := by
      unfold load
      rw [hread]
      rfl
    rw [hload]
    refine ⟨iff_of_false (by simp) (not_not_intro hbreaks), ?_, fun s hs => nomatch hs⟩
    exact iff_of_false (by simp [hread]) fun hmissing => not_breaks_of_isMissing hmissing hbreaks

theorem load_returns_iff_of_bad_values :
    let file : SettingsFile := ⟨Utf8.encode
      "\x7b\"timeout\": \"soon\", \"tail_chunk_size\": null, \"user_name\": [1]\x7d", 0o644⟩
    let store : SettingsStore := some file
    ∃ s, store.load (some "http://nn:9870/") none = .ok s ∧
      s = { Settings.default with gateway := "http://nn:9870", user := "[1]" } ∧
      ¬ store.Breaks := by
  intro file store
  have hs : store.load (some "http://nn:9870/") none =
      .ok { Settings.default with gateway := "http://nn:9870", user := "[1]" } := by
    decide +kernel
  exact ⟨_, hs, rfl, (load_returns_iff store _ _).1.mp ⟨_, hs⟩⟩

/-- A byte that begins no character, and a size without bound. -/
theorem unreadable_settings_raise :
    SettingsStore.load (some ⟨[0xFF], 0o644⟩) none none = .error .notText ∧
      SettingsStore.load (some ⟨Utf8.encode "\x7b\"tail_chunk_size\": 1e999\x7d", 0o644⟩) none none =
        .error .tooLarge := by
  decide +kernel

end SettingsStore

end HdfsBrowser
