import HdfsBrowser.Proofs.Settings.Conversion
import HdfsBrowser.Proofs.Settings.RoundTrip

/-!
# What an update touches

An update converts everything that the file says and writes it anew.  Still
each setting that is not given keeps its value, since what a setting was
converted to converts to itself.  For the same reason the second of two equal
updates leaves the file as it is.
-/

namespace HdfsBrowser

namespace Value

theorem lookup?_cons (key k : String) (v : Value) (members : List (String × Value)) :
    lookup? key ((k, v) :: members) = if k = key then some v else lookup? key members := by
  unfold lookup?
  by_cases h : k = key
  · simp [h]
  · simp [h, List.find?_cons_of_neg]

theorem lookup?_insert (key k : String) (v : Value) (members : List (String × Value)) :
    lookup? key (insert k v members) = if k = key then some v else lookup? key members := by
  induction members with
  | nil => exact lookup?_cons key k v []
  | cons m members ih =>
      obtain ⟨first, w⟩ := m
      unfold insert
      split
      · next heq =>
          subst heq
          simp only [lookup?_cons]
          split <;> rfl
      · next hne =>
          simp only [lookup?_cons, ih]
          split
          · next heq =>
              subst heq
              rw [if_neg (Ne.symm hne)]
          · rfl

theorem lookup?_eq_none_of_notMem {key : String} {members : List (String × Value)}
    (h : key ∉ members.map (·.1)) : lookup? key members = none := by
  induction members with
  | nil => rfl
  | cons m members ih =>
      obtain ⟨first, w⟩ := m
      rw [List.map_cons, List.mem_cons, not_or] at h
      rw [lookup?_cons, if_neg (Ne.symm h.1), ih h.2]

theorem lookup?_of_mem {key : String} {v : Value} {members : List (String × Value)}
    (hnodup : (members.map (·.1)).Nodup) (h : (key, v) ∈ members) :
    lookup? key members = some v := by
  induction members with
  | nil => cases h
  | cons m members ih =>
      obtain ⟨first, w⟩ := m
      obtain ⟨hnew, hrest⟩ := List.nodup_cons.mp hnodup
      rw [lookup?_cons]
      rcases List.mem_cons.mp h with heq | hmem
      · cases heq
        rw [if_pos rfl]
      · have hne : first ≠ key := by
          rintro rfl
          exact hnew (List.mem_map.mpr ⟨_, hmem, rfl⟩)
        rw [if_neg hne, ih hrest hmem]

end Value

namespace Settings

variable {key : Key} {members changes : List (String × Value)} {s : Settings}

/-- Changes to settings, each one once.  What is not null can be converted and written. -/
structure Proper (changes : List (String × Value)) : Prop where
  once : (changes.map (·.1)).Nodup
  known : ∀ name v, (name, v) ∈ changes → ∃ key, name = Key.name key
  converts : ∀ key v, (Key.name key, v) ∈ changes → v ≠ .null →
    ∃ w, key.convert v = .ok w ∧ w.WellFormed

def given (changes : List (String × Value)) (name : String) : Option Value :=
  (Value.lookup? name changes).filter (· != .null)

theorem given_eq_some_iff (hchanges : Proper changes) {name : String} {v : Value} :
    given changes name = some v ↔ (name, v) ∈ changes ∧ v ≠ .null := by
  rw [given, Option.filter_eq_some_iff, bne_iff_ne]
  refine and_congr_left fun _ => ⟨Value.mem_of_lookup?, Value.lookup?_of_mem hchanges.once⟩

/-! ## Merging -/

theorem ofName?_name (key : Key) : Key.ofName? key.name = some key := by
  cases key <;> rfl

theorem merge_of_known (members : List (String × Value))
    (honce : (changes.map (·.1)).Nodup)
    (hknown : ∀ name v, (name, v) ∈ changes → ∃ key, name = Key.name key) :
    ∃ merged, SettingsStore.merge members changes = .ok merged ∧
      ∀ name, Value.lookup? name merged =
        (given changes name).or (Value.lookup? name members) := by
  induction changes generalizing members with
  | nil => exact ⟨members, rfl, fun name => rfl⟩
  | cons c changes ih =>
      obtain ⟨first, v⟩ := c
      obtain ⟨key, rfl⟩ := hknown first v List.mem_cons_self
      obtain ⟨hnew, honce⟩ := List.nodup_cons.mp honce
      obtain ⟨merged, hmerge, hlookup⟩ := ih
        (if v = .null then members else Value.insert key.name v members) honce
        fun name w hmem => hknown name w (List.mem_cons_of_mem _ hmem)
      refine ⟨merged, by simp only [SettingsStore.merge, ofName?_name, hmerge], fun name => ?_⟩
      rw [hlookup, given, given, Value.lookup?_cons]
      by_cases hname : key.name = name
      · subst hname
        rw [Value.lookup?_eq_none_of_notMem hnew, if_pos rfl]
        by_cases hnull : v = .null
        · simp [hnull, Option.filter]
        · simp [hnull, Value.lookup?_insert, Option.filter]
      · rw [if_neg hname]
        by_cases hnull : v = .null
        · simp [hnull]
        · simp [hnull, Value.lookup?_insert, hname]

/-! ## Updated settings -/

def changed (changes : List (String × Value)) (key : Key) (old : Value) : Value :=
  ((given changes key.name).bind fun v => (key.convert v).toOption).getD old

theorem changed_of_given (hgiven : given changes key.name = none) (old : Value) :
    changed changes key old = old := by
  rw [changed, hgiven]
  rfl

theorem changed_of_convert {v w : Value} (hgiven : given changes key.name = some v)
    (hconvert : key.convert v = .ok w) (old : Value) : changed changes key old = w := by
  simp [changed, hgiven, hconvert, Except.toOption]

theorem convert_of_given (hchanges : Proper changes) {v : Value}
    (hgiven : given changes key.name = some v) :
    ∃ w, key.convert v = .ok w ∧ w.WellFormed := by
  obtain ⟨hmem, hnull⟩ := (given_eq_some_iff hchanges).mp hgiven
  exact hchanges.converts key v hmem hnull

theorem taken_merged (hchanges : Proper changes) {merged : List (String × Value)}
    (hlookup : Value.lookup? key.name merged =
      (given changes key.name).or (Value.lookup? key.name members)) :
    taken merged key = changed changes key (taken members key) := by
  cases hgiven : given changes key.name with
  | none =>
      rw [hgiven, Option.none_or] at hlookup
      rw [changed_of_given hgiven, taken, taken, hlookup]
  | some v =>
      obtain ⟨w, hconvert, -⟩ := convert_of_given hchanges hgiven
      rw [hgiven, Option.some_or] at hlookup
      rw [changed_of_convert hgiven hconvert, taken_of_convert hlookup hconvert]

theorem not_escapesIn_merged (hchanges : Proper changes) {merged : List (String × Value)}
    (hlookup : Value.lookup? key.name merged =
      (given changes key.name).or (Value.lookup? key.name members))
    (hmembers : (Value.object members).WellFormed) (hnone : ¬ OverflowsIn members key) :
    ¬ EscapesIn merged key := by
  cases hgiven : given changes key.name with
  | none =>
      rw [hgiven, Option.none_or] at hlookup
      rw [escapesIn_congr hlookup, escapesIn_iff_of_wellFormed hmembers]
      exact hnone
  | some u =>
      obtain ⟨w, hconvert, -⟩ := convert_of_given hchanges hgiven
      rw [hgiven, Option.some_or] at hlookup
      exact not_escapesIn_of_convert hlookup hconvert

theorem storable_default : default.Storable :=
  ⟨Binary64.isRegular_ofInt 30, by decide +kernel⟩

theorem wellFormed_taken (hmembers : (Value.object members).WellFormed) (key : Key) :
    (taken members key).WellFormed := by
  unfold taken
  cases hlookup : Value.lookup? key.name members with
  | none => exact (storable_iff default).mp storable_default key
  | some v =>
      have hv := hmembers.of_mem _ (Value.mem_of_lookup? hlookup)
      rw [Option.bind_some]
      cases hconvert : key.convert v with
      | error why => exact (storable_iff default).mp storable_default key
      | ok w => exact Key.wellFormed_convert hv hconvert

theorem wellFormed_changed (hchanges : Proper changes) {old : Value} (hold : old.WellFormed) :
    (changed changes key old).WellFormed := by
  cases hgiven : given changes key.name with
  | none =>
      rw [changed_of_given hgiven]
      exact hold
  | some v =>
      obtain ⟨w, hconvert, hw⟩ := convert_of_given hchanges hgiven
      rw [changed_of_convert hgiven hconvert]
      exact hw

theorem changed_changed (hchanges : Proper changes) (old : Value) :
    changed changes key (changed changes key old) = changed changes key old := by
  cases hgiven : given changes key.name with
  | none => exact changed_of_given hgiven _
  | some v =>
      obtain ⟨w, hconvert, -⟩ := convert_of_given hchanges hgiven
      rw [changed_of_convert hgiven hconvert, changed_of_convert hgiven hconvert]

end Settings

namespace SettingsStore

open Settings (Proper OverflowsIn taken changed)

variable {store : SettingsStore} {changes : List (String × Value)}
  {found : Option (List (String × Value))}

theorem update_of_read (hread : store.read = .ok found)
    (hnone : ∀ key, ¬ OverflowsIn (found.getD []) key) (hchanges : Proper changes) :
    ∃ s : Settings, store.update changes =
        .ok (s, some ⟨Utf8.encode (serialize s.toMembers), privateMode⟩) ∧
      s.Storable ∧ ∀ key, s.get key = changed changes key (taken (found.getD []) key) := by
  have hmembers := wellFormed_of_read hread
  obtain ⟨merged, hmerge, hlookup⟩ :=
    Settings.merge_of_known (found.getD []) hchanges.once hchanges.known
  rcases Settings.ofMembers_cases merged with ⟨⟨key, hescapes⟩, -⟩ | ⟨-, s, hs, htaken⟩
  · exact absurd hescapes
      (Settings.not_escapesIn_merged hchanges (hlookup key.name) hmembers (hnone key))
  · have hget (key : Settings.Key) :
        s.get key = changed changes key (taken (found.getD []) key) :=
      (htaken key).trans (Settings.taken_merged hchanges (hlookup key.name))
    have hstorable : s.Storable := (Settings.storable_iff s).mpr fun key =>
      hget key ▸ Settings.wellFormed_changed hchanges (Settings.wellFormed_taken hmembers key)
    refine ⟨s, ?_, hstorable, hget⟩
    simp only [update, hread, bind, Except.bind, hmerge, hs,
      write_of_wellFormed hstorable.wellFormed]

/-! ## Loading -/

theorem read_of_load {gateway user : Option String} {s : Settings}
    (h : store.load gateway user = .ok s) :
    ∃ found, store.read = .ok found ∧ ∀ key, ¬ OverflowsIn (found.getD []) key := by
  cases hread : store.read with
  | error why =>
      simp only [load, hread, bind, Except.bind] at h
      cases h
  | ok found => exact ⟨found, rfl, (load_of_read hread gateway user).1.mp ⟨s, h⟩⟩

theorem load_of_kept {kept : Settings} (hread : store.read = .ok found)
    (hnone : ∀ key, ¬ OverflowsIn (found.getD []) key)
    (hkept : ∀ key, kept.get key = taken (found.getD []) key) (gateway user : Option String) :
    store.load gateway user = .ok (overridden kept gateway user) := by
  obtain ⟨hreturns, hloads⟩ := load_of_read hread gateway user
  obtain ⟨s, hs⟩ := hreturns.mpr hnone
  obtain ⟨t, ht, rfl⟩ := hloads s hs
  rw [hs, Settings.eq_of_get fun key => (ht key).trans (hkept key).symm]

end SettingsStore

namespace SettingsFolder

open Settings (Proper changed)

variable {folder : SettingsFolder} {changes : List (String × Value)} {before s : Settings}

def loadedAs : Settings.Key → Value → Value
  | .gateway, .str text => .str (Text.dropTrailing '/' text)
  | _, v => v

theorem get_overridden (s : Settings) (key : Settings.Key) :
    (SettingsStore.overridden s none none).get key = loadedAs key (s.get key) := by
  cases key <;> rfl

theorem run_load_keeping (hs : s.Storable) (folder : SettingsFolder) :
    (load none none).run (folder.keeping s.toMembers) =
      .ok (SettingsStore.overridden s none none) (folder.keeping s.toMembers) := by
  have hread := SettingsStore.read_of_wellFormed hs.wellFormed SettingsStore.privateMode
  have hload := SettingsStore.load_of_kept hread
    (fun key => mt .inl (Settings.not_escapesIn_toMembers s key))
    (fun key => (Settings.taken_toMembers s key).symm) none none
  rw [run_load, keeping, holding, hload]
  rfl

theorem run_update_keeping (hs : s.Storable) (hchanges : Proper changes)
    (hchanged : ∀ key, changed changes key (s.get key) = s.get key) (folder : SettingsFolder) :
    (update changes).run (folder.keeping s.toMembers) =
      .ok s (folder.keeping s.toMembers) := by
  have hread := SettingsStore.read_of_wellFormed hs.wellFormed SettingsStore.privateMode
  obtain ⟨t, hupdate, -, hget⟩ := SettingsStore.update_of_read hread
    (fun key => mt .inl (Settings.not_escapesIn_toMembers s key)) hchanges
  have heq : t = s := Settings.eq_of_get fun key => by
    rw [hget, Option.getD_some, Settings.taken_toMembers, hchanged]
  rw [run_update, keeping, holding, hupdate, heq]
  rfl

/-- An update with changes that convert succeeds on every file from which settings are loaded.
Loading gives what each change converts to, and for each setting without one exactly what it gave
before.  The same update once more changes nothing. -/
theorem update_touches_only_what_is_given (folder : SettingsFolder)
    (changes : List (String × Value)) (before : Settings)
    (hload : (load none none).run folder = .ok before folder) (hchanges : Proper changes) :
    ∃ s after loaded, (update changes).run folder = .ok s after ∧
      (load none none).run after = .ok loaded after ∧
      (∀ key v w, (Settings.Key.name key, v) ∈ changes → v ≠ .null → key.convert v = .ok w →
        loaded.get key = loadedAs key w) ∧
      (∀ key, (∀ v, (Settings.Key.name key, v) ∈ changes → v = .null) →
        loaded.get key = before.get key) ∧
      (update changes).run after = .ok s after := by
  have hbefore : folder.file.load none none = .ok before := by
    rw [run_load] at hload
    cases hfile : folder.file.load none none with
    | error why => simp [hfile, lookedUp] at hload
    | ok t => simpa [hfile, lookedUp] using hload
  obtain ⟨found, hread, hnone⟩ := SettingsStore.read_of_load hbefore
  obtain ⟨kept, hkept, hoverridden⟩ :=
    (SettingsStore.load_of_read hread none none).2 before hbefore
  obtain ⟨s, hupdate, hstorable, hget⟩ := SettingsStore.update_of_read hread hnone hchanges
  refine ⟨s, folder.keeping s.toMembers, SettingsStore.overridden s none none, ?_,
    run_load_keeping hstorable folder, ?_, ?_, ?_⟩
  · rw [run_update, hupdate]
    rfl
  · intro key v w hmem hnull hconvert
    have hgiven := (Settings.given_eq_some_iff hchanges).mpr ⟨hmem, hnull⟩
    rw [get_overridden, hget, Settings.changed_of_convert hgiven hconvert]
  · intro key hnot
    have hgiven : Settings.given changes key.name = none := by
      cases hcase : Settings.given changes key.name with
      | none => rfl
      | some v =>
          obtain ⟨hmem, hnull⟩ := (Settings.given_eq_some_iff hchanges).mp hcase
          exact absurd (hnot v hmem) hnull
    rw [hoverridden, get_overridden, get_overridden, hget, Settings.changed_of_given hgiven, hkept]
  · refine run_update_keeping hstorable hchanges (fun key => ?_) folder
    rw [hget, Settings.changed_changed hchanges]

theorem update_of_mixed_file :
    let folder : SettingsFolder := ⟨some ⟨Utf8.encode
      "\x7b\"timeout\": \" 7 \", \"tail_chunk_size\": [1], \"colour\": 1\x7d", 0o644⟩, none, 0o644⟩
    let changes : List (String × Value) :=
      [("gateway_url", .str "http://nn:9870//"), ("user_name", .null)]
    ∃ s after loaded, (update changes).run folder = .ok s after ∧
      (load none none).run after = .ok loaded after ∧
      loaded.get .gateway = .str "http://nn:9870" ∧ loaded.get .timeout = .float (.ofInt 7) ∧
      (update changes).run after = .ok s after := by
  intro folder changes
  let before : Settings := { Settings.default with timeout := .ofInt 7 }
  have hfile : folder.file.load none none = .ok before := by decide +kernel
  have hload : (load none none).run folder = .ok before folder := by
    rw [run_load, hfile]
    rfl
  have hchanges : Proper changes := by
    refine ⟨by decide, fun name v hmem => ?_, fun key v hmem hnull => ?_⟩
    · simp only [changes, List.mem_cons, List.not_mem_nil, or_false] at hmem
      rcases hmem with hcase | hcase <;> cases hcase
      · exact ⟨.gateway, rfl⟩
      · exact ⟨.user, rfl⟩
    · simp only [changes, List.mem_cons, List.not_mem_nil, or_false, Prod.mk.injEq] at hmem
      rcases hmem with ⟨hkey, rfl⟩ | ⟨-, rfl⟩
      · obtain rfl : key = .gateway := by
          revert hkey
          cases key <;> decide
        exact ⟨_, rfl, .str _⟩
      · exact absurd rfl hnull
  obtain ⟨s, after, loaded, hupdate, hafter, hgiven, hkept, hagain⟩ :=
    update_touches_only_what_is_given folder changes before hload hchanges
  have hgateway := hgiven .gateway (.str "http://nn:9870//") _ List.mem_cons_self (by decide) rfl
  have htimeout := hkept .timeout (by simp [changes, Settings.Key.name])
  exact ⟨s, after, loaded, hupdate, hafter, hgateway.trans (by decide), htimeout, hagain⟩

end SettingsFolder

end HdfsBrowser
