import HdfsBrowser.Settings.Folder

/-!
# Work on the folder as a whole

Each kind of work either fails and leaves the folder as it was, or does what
the settings file alone would have it do and leaves no draft.  So a step fails
for a reason that lies in the file or in what was asked, never halfway.
-/

namespace HdfsBrowser.SettingsFolder

variable {α β : Type} {folder : SettingsFolder} {members changes : List (String × Value)}

def holding (folder : SettingsFolder) (store : SettingsStore) : SettingsFolder :=
  { folder with file := store, draft := none }

def lookedUp (folder : SettingsFolder) : Except Fault α → EStateM.Result Fault SettingsFolder α
  | .ok a => .ok a folder
  | .error why => .error why folder

def replaced (folder : SettingsFolder) :
    Except Fault (α × SettingsStore) → EStateM.Result Fault SettingsFolder α
  | .ok (a, store) => .ok a (folder.holding store)
  | .error why => .error why folder

theorem run_ofExcept (x : Except Fault α) (folder : SettingsFolder) :
    (MonadExcept.ofExcept x : Work α).run folder = folder.lookedUp x := by
  cases x <;> rfl

theorem run_bind (x : Work α) (f : α → Work β) (folder : SettingsFolder) :
    (x >>= f).run folder =
      match x.run folder with
      | .ok a folder => (f a).run folder
      | .error why folder => .error why folder := by
  change EStateM.bind x f folder = _
  unfold EStateM.bind EStateM.run
  cases x folder <;> rfl

/-! ## Each kind of work -/

theorem run_read (folder : SettingsFolder) : read.run folder = folder.lookedUp folder.file.read :=
  run_ofExcept folder.file.read folder

theorem run_load (gateway user : Option String) (folder : SettingsFolder) :
    (load gateway user).run folder = folder.lookedUp (folder.file.load gateway user) :=
  run_ofExcept (folder.file.load gateway user) folder

theorem run_write (members : List (String × Value)) (folder : SettingsFolder) :
    (write members).run folder =
      folder.replaced ((SettingsStore.write members).map fun store => ((), store)) := by
  unfold write content SettingsStore.write
  split <;> rfl

theorem run_update (changes : List (String × Value)) (folder : SettingsFolder) :
    (update changes).run folder = folder.replaced (folder.file.update changes) := by
  unfold update SettingsStore.update
  rw [run_bind, run_read]
  cases folder.file.read with
  | error why => rfl
  | ok found =>
      simp only [lookedUp, bind, Except.bind]
      change (MonadExcept.ofExcept _ >>= _ : Work Settings).run folder = _
      rw [run_bind, run_ofExcept]
      cases SettingsStore.merge (found.getD []) changes with
      | error why => rfl
      | ok members =>
          simp only [lookedUp]
          change (MonadExcept.ofExcept _ >>= _ : Work Settings).run folder = _
          rw [run_bind, run_ofExcept]
          cases Settings.ofMembers members with
          | error why => rfl
          | ok s =>
              simp only [lookedUp]
              change (write _ >>= _ : Work Settings).run folder = _
              rw [run_bind, run_write]
              cases SettingsStore.write s.toMembers <;> rfl

end HdfsBrowser.SettingsFolder
