import HdfsBrowser.Proofs.Settings.Folder
import HdfsBrowser.Proofs.Settings.Loading

/-!
# Failed steps

A step on the settings file fails before it writes anything: at a file that
cannot be read, at a name or a number among the changes, or at a number that
has no text.  So the file is always the one of the last step that succeeded in
writing, and no draft is ever left.
-/

namespace HdfsBrowser

namespace SettingsStore

variable {store : SettingsStore} {members changes : List (String × Value)}

/-! ## Changes -/

theorem merge_cases (members changes : List (String × Value)) :
    ((∃ c ∈ changes, Settings.Key.ofName? c.1 = none) ∧
      ∃ key, merge members changes = .error (.unknownSetting key)) ∨
    ((∀ c ∈ changes, Settings.Key.ofName? c.1 ≠ none) ∧
      ∃ merged, merge members changes = .ok merged) := by
  induction changes generalizing members with
  | nil => exact .inr ⟨by simp, members, rfl⟩
  | cons c changes ih =>
      obtain ⟨name, v⟩ := c
      cases hname : Settings.Key.ofName? name with
      | none => exact .inl ⟨⟨_, List.mem_cons_self, hname⟩, name, by simp only [merge, hname]⟩
      | some key =>
          simp only [merge, hname]
          rcases ih (if v = .null then members else Value.insert name v members) with
            ⟨⟨c, hmem, hc⟩, hmerge⟩ | ⟨hall, hmerge⟩
          · exact .inl ⟨⟨c, List.mem_cons_of_mem _ hmem, hc⟩, hmerge⟩
          · exact .inr ⟨List.forall_mem_cons.mpr ⟨by simp [hname], hall⟩, hmerge⟩

theorem membersPrintable_toMembers (s : Settings) :
    Value.membersPrintable s.toMembers = decide (Numeral.Fits s.tailChunk) := by
  simp [Settings.toMembers, Settings.Key.all, Settings.get, Value.membersPrintable, Value.printable]

theorem write_cases (members : List (String × Value)) :
    (Value.membersPrintable members = false ∧ ∃ why, write members = .error why) ∨
    (Value.membersPrintable members = true ∧
      write members = .ok (some ⟨Utf8.encode (serialize members), privateMode⟩)) := by
  unfold write
  cases Value.membersPrintable members with
  | false => exact .inl ⟨rfl, _, rfl⟩
  | true => exact .inr ⟨rfl, rfl⟩

end SettingsStore

namespace SettingsFolder

variable {store : SettingsStore} {step : Step}

def Step.readsFile : Step → Bool
  | .read | .load _ _ | .update _ => true
  | .raw _ _ | .write _ => false

/-- Why a step fails on a file. -/
inductive Fails (store : SettingsStore) : Step → Prop
  | unreadable {step : Step} {why : Fault} (hreads : step.readsFile = true)
      (hread : store.read = .error why) : Fails store step
  | write {members : List (String × Value)} (hmembers : Value.membersPrintable members = false) :
      Fails store (.write members)
  | load {gateway user : Option String} {found : Option (List (String × Value))}
      {key : Settings.Key} (hread : store.read = .ok found)
      (hoverflows : Settings.OverflowsIn (found.getD []) key) : Fails store (.load gateway user)
  | unknown {changes : List (String × Value)} {found : Option (List (String × Value))}
      (hread : store.read = .ok found) (hname : ∃ c ∈ changes, Settings.Key.ofName? c.1 = none) :
      Fails store (.update changes)
  | tooLarge {changes members : List (String × Value)} {found : Option (List (String × Value))}
      {key : Settings.Key} (hread : store.read = .ok found)
      (hmerge : SettingsStore.merge (found.getD []) changes = .ok members)
      (hoverflows : Settings.OverflowsIn members key) : Fails store (.update changes)
  /-- They give a setting that does not convert and has an integer with too many digits to be
  reported. -/
  | unreported {changes members : List (String × Value)} {found : Option (List (String × Value))}
      {key : Settings.Key} (hread : store.read = .ok found)
      (hmerge : SettingsStore.merge (found.getD []) changes = .ok members)
      (hunreported : Settings.UnreportedIn members key) : Fails store (.update changes)
  | unprintable {changes members : List (String × Value)}
      {found : Option (List (String × Value))} {s : Settings} (hread : store.read = .ok found)
      (hmerge : SettingsStore.merge (found.getD []) changes = .ok members)
      (hmembers : Settings.ofMembers members = .ok s) (hsize : ¬ Numeral.Fits s.tailChunk) :
      Fails store (.update changes)

inductive Leaves (store : SettingsStore) : Step → Reply → SettingsStore → Prop
  | raw (content : Bytes) (mode : Nat) :
      Leaves store (.raw content mode) .nothing (some ⟨content, mode⟩)
  | read (found : Option (List (String × Value))) : Leaves store .read (.members found) store
  | write (members : List (String × Value)) :
      Leaves store (.write members) .nothing
        (some ⟨Utf8.encode (SettingsStore.serialize members), 0o600⟩)
  | load (gateway user : Option String) (s : Settings) :
      Leaves store (.load gateway user) (.settings s) store
  | update (changes : List (String × Value)) (s : Settings) :
      Leaves store (.update changes) (.settings s)
        (some ⟨Utf8.encode (SettingsStore.serialize s.toMembers), 0o600⟩)

/-! ## One step -/

theorem load_cases (store : SettingsStore) (gateway user : Option String) :
    (Fails store (.load gateway user) ∧ ∃ why, store.load gateway user = .error why) ∨
    (¬ Fails store (.load gateway user) ∧ ∃ s, store.load gateway user = .ok s) := by
  cases hread : store.read with
  | error why =>
      refine .inl ⟨.unreadable rfl hread, why, ?_⟩
      unfold SettingsStore.load
      rw [hread]
      rfl
  | ok found =>
      have hreturns := (SettingsStore.load_of_read hread gateway user).1
      cases hload : store.load gateway user with
      | error why =>
          rw [hload] at hreturns
          have hoverflows := mt hreturns.mpr (by simp)
          push Not at hoverflows
          obtain ⟨key, hkey⟩ := hoverflows
          exact .inl ⟨.load hread hkey, why, rfl⟩
      | ok s =>
          refine .inr ⟨fun hfails => ?_, s, rfl⟩
          cases hfails with
          | unreadable _ hread' => simp [hread] at hread'
          | load hread' hoverflows =>
              rw [hread] at hread'
              cases hread'
              exact hreturns.mp ⟨s, hload⟩ _ hoverflows

theorem update_cases (store : SettingsStore) (changes : List (String × Value)) :
    (Fails store (.update changes) ∧ ∃ why, store.update changes = .error why) ∨
    (¬ Fails store (.update changes) ∧ ∃ s, store.update changes =
      .ok (s, some ⟨Utf8.encode (SettingsStore.serialize s.toMembers), 0o600⟩)) := by
  unfold SettingsStore.update
  cases hread : store.read with
  | error why => exact .inl ⟨.unreadable rfl hread, why, rfl⟩
  | ok found =>
      simp only [bind, Except.bind]
      rcases SettingsStore.merge_cases (found.getD []) changes with
        ⟨hname, key, hmerge⟩ | ⟨hnames, members, hmerge⟩
      · exact .inl ⟨.unknown hread hname, _, by rw [hmerge]⟩
      · simp only [hmerge]
        rcases Settings.ofMembers_cases members with
          ⟨⟨key, hescapes⟩, why, hmembers⟩ | ⟨hnone, s, hmembers, -⟩
        · refine .inl ⟨?_, why, by rw [hmembers]⟩
          exact hescapes.elim (.tooLarge hread hmerge) (.unreported hread hmerge)
        · simp only [hmembers]
          have hsize := SettingsStore.membersPrintable_toMembers s
          rcases SettingsStore.write_cases s.toMembers with ⟨hprint, why, hwrite⟩ | ⟨hprint, hwrite⟩
          · rw [hprint, eq_comm, decide_eq_false_iff_not] at hsize
            exact .inl ⟨.unprintable hread hmerge hmembers hsize, why, by rw [hwrite]⟩
          · rw [hprint, eq_comm, decide_eq_true_eq] at hsize
            refine .inr ⟨fun hfails => ?_, s, by rw [hwrite]; rfl⟩
            cases hfails with
            | unreadable _ hread' => simp [hread] at hread'
            | unknown hread' hname =>
                obtain ⟨c, hmem, hc⟩ := hname
                exact hnames c hmem hc
            | tooLarge hread' hmerge' hoverflows =>
                rw [hread] at hread'
                cases hread'
                rw [hmerge] at hmerge'
                cases hmerge'
                exact hnone _ (.inl hoverflows)
            | unreported hread' hmerge' hunreported =>
                rw [hread] at hread'
                cases hread'
                rw [hmerge] at hmerge'
                cases hmerge'
                exact hnone _ (.inr hunreported)
            | unprintable hread' hmerge' hmembers' hsize' =>
                rw [hread] at hread'
                cases hread'
                rw [hmerge] at hmerge'
                cases hmerge'
                rw [hmembers] at hmembers'
                cases hmembers'
                exact hsize' hsize

theorem perform_cases (folder : SettingsFolder) (step : Step) :
    (Fails folder.file step ∧ ∃ why, (perform step).run folder = .error why folder) ∨
    (¬ Fails folder.file step ∧ ∃ reply after, (perform step).run folder = .ok reply after ∧
      (folder.draft = none → after.draft = none) ∧ Leaves folder.file step reply after.file) := by
  cases step with
  | raw content mode =>
      refine .inr ⟨fun hfails => ?_, _, _, rfl, id, .raw content mode⟩
      cases hfails with
      | unreadable hreads _ => cases hreads
  | read =>
      simp only [perform]
      rw [run_bind, run_read]
      cases hread : folder.file.read with
      | error why => exact .inl ⟨.unreadable rfl hread, why, rfl⟩
      | ok found =>
          refine .inr ⟨fun hfails => ?_, _, _, rfl, id, .read found⟩
          cases hfails with
          | unreadable _ hread' => simp [hread] at hread'
  | write members =>
      simp only [perform]
      rw [run_bind, run_write]
      rcases SettingsStore.write_cases members with ⟨hprint, why, hwrite⟩ | ⟨hprint, hwrite⟩
      · exact .inl ⟨.write hprint, why, by rw [hwrite]; rfl⟩
      · refine .inr ⟨fun hfails => ?_, .nothing, _, by rw [hwrite]; rfl, fun _ => rfl,
          .write members⟩
        cases hfails with
        | unreadable hreads _ => cases hreads
        | write hprint' => simp [hprint] at hprint'
  | load gateway user =>
      simp only [perform]
      rw [run_bind, run_load]
      rcases load_cases folder.file gateway user with ⟨hfails, why, hload⟩ | ⟨hworks, s, hload⟩
      · exact .inl ⟨hfails, why, by rw [hload]; rfl⟩
      · exact .inr ⟨hworks, _, _, by rw [hload]; rfl, id, .load gateway user s⟩
  | update changes =>
      simp only [perform]
      rw [run_bind, run_update]
      rcases update_cases folder.file changes with ⟨hfails, why, hupdate⟩ | ⟨hworks, s, hupdate⟩
      · exact .inl ⟨hfails, why, by rw [hupdate]; rfl⟩
      · exact .inr ⟨hworks, .settings s, _, by rw [hupdate]; rfl, fun _ => rfl, .update changes s⟩

/-! ## Runs -/

theorem draft_after {folder : SettingsFolder} (h : folder.draft = none) (step : Step) :
    (folder.after step).draft = none := by
  unfold after
  rcases perform_cases folder step with ⟨-, why, hrun⟩ | ⟨-, reply, last, hrun, hdraft, -⟩
  · rw [hrun]
    exact h
  · rw [hrun]
    exact hdraft h

theorem draft_run {folder : SettingsFolder} (h : folder.draft = none) (steps : List Step) :
    (folder.run steps).draft = none := by
  induction steps generalizing folder with
  | nil => exact h
  | cons step steps ih => exact ih (draft_after h step)

/-- After any steps on any file there is no draft.  The next step either fails, exactly for the
reasons given, and leaves the folder as it was, or succeeds and leaves the file it should. -/
theorem steps_are_atomic (file : SettingsStore) (newMode : Nat) (steps : List Step) (step : Step) :
    let before := run ⟨file, none, newMode⟩ steps
    before.draft = none ∧ (before.after step).draft = none ∧
    ((Fails before.file step ∧ ∃ why, (perform step).run before = .error why before) ∨
      (¬ Fails before.file step ∧ ∃ reply,
        (perform step).run before = .ok reply (before.after step) ∧
        Leaves before.file step reply (before.after step).file)) := by
  intro before
  have hdraft : before.draft = none := draft_run rfl steps
  refine ⟨hdraft, draft_after hdraft step, ?_⟩
  rcases perform_cases before step with hfails | ⟨hworks, reply, last, hrun, -, hleaves⟩
  · exact .inl hfails
  · have hlast : before.after step = last := by
      unfold after
      rw [hrun]
    exact .inr ⟨hworks, reply, by rw [hlast, hrun], hlast ▸ hleaves⟩

end SettingsFolder

end HdfsBrowser
