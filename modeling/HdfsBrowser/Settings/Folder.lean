import HdfsBrowser.Settings.Store

/-!
# The folder of the settings file

The file is written under a provisional name and takes its place by renaming,
so nobody finds it half written.  What was done to the folder before a fault
stays done.
-/

namespace HdfsBrowser

structure SettingsFolder where
  file : SettingsStore
  draft : SettingsStore
  /-- The mode of a file that is made. -/
  newMode : Nat
  deriving DecidableEq, Repr

namespace SettingsFolder

abbrev Work (α : Type) := EStateM Fault SettingsFolder α

/-! ## Single operations -/

/-- Makes an empty draft.  One that was there already is emptied and keeps its mode. -/
def openDraft : Work Unit :=
  modify fun folder =>
    { folder with draft := some ⟨[], (folder.draft.map (·.mode)).getD folder.newMode⟩ }

def appendDraft (bs : Bytes) : Work Unit :=
  modify fun folder =>
    { folder with draft := folder.draft.map fun d => { d with content := d.content ++ bs } }

def publishDraft : Work Unit :=
  modify fun folder =>
    match folder.draft with
    | none => folder
    | some draft => { folder with file := some draft, draft := none }

def restrictFile : Work Unit :=
  modify fun folder =>
    { folder with file := folder.file.map fun f => { f with mode := SettingsStore.privateMode } }

/-! ## Reading and writing -/

def read : Work (Option (List (String × Value))) := do
  MonadExcept.ofExcept (← get).file.read

def content (members : List (String × Value)) : Except Fault Bytes :=
  if Value.membersPrintable members then .ok (Utf8.encode (SettingsStore.serialize members))
  else .error (.numeral (.tooLong none))

def write (members : List (String × Value)) : Work Unit := do
  let bs ← MonadExcept.ofExcept (content members)
  openDraft
  appendDraft bs
  publishDraft
  restrictFile

def load (gateway user : Option String) : Work Settings := do
  MonadExcept.ofExcept ((← get).file.load gateway user)

def update (changes : List (String × Value)) : Work Settings := do
  let members ← MonadExcept.ofExcept (SettingsStore.merge ((← read).getD []) changes)
  let s ← MonadExcept.ofExcept (Settings.ofMembers members)
  write s.toMembers
  return s

/-! ## Runs -/

inductive Step where
  /-- Somebody else writes the file. -/
  | raw (content : Bytes) (mode : Nat)
  | read
  | write (members : List (String × Value))
  | load (gateway user : Option String)
  | update (changes : List (String × Value))
  deriving DecidableEq, Repr

inductive Reply where
  | nothing
  | members (found : Option (List (String × Value)))
  | settings (s : Settings)
  deriving DecidableEq, Repr

def perform : Step → Work Reply
  | .raw content mode => do
    modify fun folder => { folder with file := some ⟨content, mode⟩ }
    return .nothing
  | .read => return .members (← read)
  | .write members => do
    write members
    return .nothing
  | .load gateway user => return .settings (← load gateway user)
  | .update changes => return .settings (← update changes)

def after (folder : SettingsFolder) (step : Step) : SettingsFolder :=
  match (perform step).run folder with
  | .ok _ folder => folder
  | .error _ folder => folder

def run (folder : SettingsFolder) (steps : List Step) : SettingsFolder := steps.foldl after folder

end SettingsFolder

end HdfsBrowser
