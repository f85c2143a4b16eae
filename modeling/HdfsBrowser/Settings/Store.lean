import HdfsBrowser.Json.Parser
import HdfsBrowser.Settings.Basic

/-!
# The settings file

The file holds the settings as a JSON object.  It is written as a whole or not
at all, readable by its owner only; a file that is no JSON object counts as
missing.  Updating keeps the settings that it is not given.
-/

namespace HdfsBrowser

structure SettingsFile where
  content : Bytes
  mode : Nat
  deriving DecidableEq, Repr

abbrev SettingsStore := Option SettingsFile

namespace SettingsStore

def privateMode : Nat := 0o600

def read (store : SettingsStore) : Except Fault (Option (List (String × Value))) :=
  match store with
  | none => .ok none
  | some file =>
    match Utf8.decode? file.content with
    | none => .error .notText
    | some text =>
      match Json.parse text with
      | .ok (.object members) => .ok (some members)
      | .ok _ => .ok none
      | .error .malformed => .ok none
      | .error (.numeral why) => .error (.numeral why)

def serialize (members : List (String × Value)) : String :=
  Json.document (.object members) ++ "\n"

def write (members : List (String × Value)) : Except Fault SettingsStore :=
  if Value.membersPrintable members then
    .ok (some ⟨Utf8.encode (serialize members), privateMode⟩)
  else .error (.numeral (.tooLong none))

def load (store : SettingsStore) (gateway user : Option String) : Except Fault Settings := do
  let s ← Settings.ofMembers ((← store.read).getD [])
  .ok { s with
    gateway := Text.dropTrailing '/' (Settings.chosen gateway s.gateway)
    user := Settings.chosen user s.user }

/-- The members with some of them changed; a change to nothing keeps the member. -/
def merge (members : List (String × Value)) :
    List (String × Value) → Except Fault (List (String × Value))
  | [] => .ok members
  | (key, v) :: rest =>
    match Settings.Key.ofName? key with
    | none => .error (.unknownSetting key)
    | some _ => merge (if v = .null then members else Value.insert key v members) rest

def update (store : SettingsStore) (changes : List (String × Value)) :
    Except Fault (Settings × SettingsStore) := do
  let members ← merge ((← store.read).getD []) changes
  let s ← Settings.ofMembers members
  .ok (s, ← write s.toMembers)

end SettingsStore

end HdfsBrowser
