import HdfsBrowser.Proofs.Json.RoundTrip
import HdfsBrowser.Proofs.Settings.Folder
import HdfsBrowser.Proofs.Settings.Loading

/-!
# Reading the settings file back

Members that a text can say are read from the file as they were written, in
their order.  Settings are members that convert to themselves, so writing them
and reading them changes nothing.
-/

namespace HdfsBrowser

namespace Settings

variable {s t : Settings} {key : Key}

/-! ## Settings as members -/

theorem lookup?_toMembers (s : Settings) (key : Key) :
    Value.lookup? key.name s.toMembers = some (s.get key) := by
  cases key <;> rfl

theorem convert_get (s : Settings) (key : Key) : key.convert (s.get key) = .ok (s.get key) := by
  cases key <;> rfl

theorem taken_of_convert {members : List (String × Value)} {v w : Value}
    (hlookup : Value.lookup? key.name members = some v) (h : key.convert v = .ok w) :
    taken members key = w := by
  simp [taken, hlookup, h, Except.toOption]

theorem taken_toMembers (s : Settings) (key : Key) : taken s.toMembers key = s.get key :=
  taken_of_convert (lookup?_toMembers s key) (convert_get s key)

theorem eq_of_get (h : ∀ key, s.get key = t.get key) : s = t := by
  have hgateway := h .gateway
  have hservice := h .service
  have huser := h .user
  have htimeout := h .timeout
  have htailChunk := h .tailChunk
  cases s
  cases t
  simp_all [get]

theorem not_escapesIn_toMembers (s : Settings) (key : Key) : ¬ EscapesIn s.toMembers key :=
  not_escapesIn_of_convert (lookup?_toMembers s key) (convert_get s key)

theorem ofMembers_toMembers (s : Settings) : ofMembers s.toMembers = .ok s := by
  rcases ofMembers_cases s.toMembers with ⟨⟨key, hescapes⟩, -⟩ | ⟨-, t, hread, htaken⟩
  · exact absurd hescapes (not_escapesIn_toMembers s key)
  · rw [hread, eq_of_get fun key => (htaken key).trans (taken_toMembers s key)]

/-- The settings can be written: their size fits, and their time limit is a number. -/
structure Storable (s : Settings) : Prop where
  timeout : s.timeout.IsRegular
  tailChunk : Numeral.Fits s.tailChunk

theorem storable_iff (s : Settings) : s.Storable ↔ ∀ key, (s.get key).WellFormed := by
  constructor
  · rintro ⟨htimeout, htailChunk⟩ key
    cases key with
    | gateway | service | user => exact .str _
    | timeout => exact .float htimeout
    | tailChunk => exact .int htailChunk
  · intro h
    refine ⟨?_, ?_⟩
    · cases h .timeout with
      | float htimeout => exact htimeout
    · cases h .tailChunk with
      | int htailChunk => exact htailChunk

theorem Storable.wellFormed (h : s.Storable) : (Value.object s.toMembers).WellFormed := by
  refine .object (by decide : (Key.all.map Key.name).Nodup) fun m hm => ?_
  obtain ⟨key, -, rfl⟩ := List.mem_map.mp hm
  exact (storable_iff s).mp h key

end Settings

namespace SettingsStore

variable {members : List (String × Value)}

/-! ## The file -/

theorem write_of_wellFormed (h : (Value.object members).WellFormed) :
    write members = .ok (some ⟨Utf8.encode (serialize members), privateMode⟩) :=
  if_pos h.printable

theorem parse_serialize (h : (Value.object members).WellFormed) :
    Json.parse (serialize members) = .ok (.object members) := by
  have hwhite : Json.IsWhiteSpace ['\n'] := by simp [Json.IsWhiteSpace, Json.isWhite]
  have hserialize : serialize members =
      String.ofList (Json.chars (.indented 0) (.object members) ++ ['\n']) := by
    rw [String.ofList_append]
    rfl
  rw [hserialize]
  exact Json.parse_chars (.indented 0) h hwhite

theorem read_of_wellFormed (h : (Value.object members).WellFormed) (mode : Nat) :
    read (some ⟨Utf8.encode (serialize members), mode⟩) = .ok (some members) := by
  simp only [read, Utf8.decode?_encode, parse_serialize h]

end SettingsStore

namespace SettingsFolder

variable {members : List (String × Value)}

def keeping (folder : SettingsFolder) (members : List (String × Value)) : SettingsFolder :=
  folder.holding
    (some ⟨Utf8.encode (SettingsStore.serialize members), SettingsStore.privateMode⟩)

theorem run_write_of_wellFormed (h : (Value.object members).WellFormed)
    (folder : SettingsFolder) : (write members).run folder = .ok () (folder.keeping members) := by
  rw [run_write, SettingsStore.write_of_wellFormed h]
  rfl

theorem run_read_keeping (h : (Value.object members).WellFormed) (folder : SettingsFolder) :
    read.run (folder.keeping members) = .ok (some members) (folder.keeping members) := by
  rw [run_read, keeping, holding, SettingsStore.read_of_wellFormed h]
  rfl

/-- Whatever the folder held before, the members that are read are those that were written, and
settings are read as they were written. -/
theorem read_after_write (folder : SettingsFolder) :
    (∀ members, (Value.object members).WellFormed → ∃ after,
      (write members).run folder = .ok () after ∧ read.run after = .ok (some members) after) ∧
    ∀ s : Settings, s.Storable → ∃ after, (write s.toMembers).run folder = .ok () after ∧
      ∃ members, read.run after = .ok (some members) after ∧
        Settings.ofMembers members = .ok s := by
  refine ⟨fun members h => ⟨_, run_write_of_wellFormed h folder, run_read_keeping h folder⟩,
    fun s h => ⟨_, run_write_of_wellFormed h.wellFormed folder, s.toMembers,
      run_read_keeping h.wellFormed folder, Settings.ofMembers_toMembers s⟩⟩

theorem read_after_write_of_nested :
    let folder : SettingsFolder := ⟨some ⟨[0xFF], 0o644⟩, some ⟨[0x7B], 0o666⟩, 0o644⟩
    let members : List (String × Value) := [("📁\"\n", .list [.null, .float (.ofInt 30)]),
      ("a", .object [("", .int (-7)), ("\x7f", .bool true)])]
    (∃ after, (write members).run folder = .ok () after ∧
      read.run after = .ok (some members) after) ∧
    ∃ after, (write Settings.default.toMembers).run folder = .ok () after ∧
      ∃ members, read.run after = .ok (some members) after ∧
        Settings.ofMembers members = .ok Settings.default := by
  intro folder members
  have hregular := Binary64.isRegular_ofInt 30
  have hmembers : (Value.object members).WellFormed := by
    have hfits : Numeral.Fits (-7) := by decide +kernel
    refine .object (by decide) fun m hm => ?_
    simp only [members, List.mem_cons, List.not_mem_nil, or_false] at hm
    rcases hm with rfl | rfl
    · exact .list (by simp [Value.WellFormed.null, Value.WellFormed.float hregular])
    · exact .object (by decide) (by simp [Value.WellFormed.int hfits, Value.WellFormed.bool])
  exact ⟨(read_after_write folder).1 members hmembers,
    (read_after_write folder).2 Settings.default ⟨hregular, by decide +kernel⟩⟩

end SettingsFolder

end HdfsBrowser
