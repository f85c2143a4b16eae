import HdfsBrowser.Proofs.Session.Selection

/-!
# Files that are shown

A file is opened in three steps: its path is selected, its blocks are asked for
and then its status, and its sheet is shown with the answer.  In between other
actions take their steps, and opening a file does not look at the selection
again.  So the sheet is that of the selected file exactly when nothing else was
chosen since the file was opened.
-/

namespace HdfsBrowser

theorem Action.opened?_eq_some {action : Action} {target : String}
    (h : action.opened? = some target) :
    ∃ path, action = .openEntry path "FILE" ∧ target = Path.normalize path := by
  cases action with
  | openEntry path kind =>
      simp only [opened?] at h
      split at h
      · next hfile =>
          cases h
          exact ⟨path, hfile ▸ rfl, rfl⟩
      · cases h
  | _ => cases h

def Phase.opened? : Phase → Option String
  | .locating path => some path
  | .describing path _ => some path
  | _ => none

def Progress.opened? : Progress → Option String
  | .waiting a _ => a.phase.opened?
  | _ => none

/-! ## Steps of activities -/

namespace Activity

@[simp] theorem opened?_finish (c : Console) (control : Option String)
    (r : Except Fault Answer) : (finish c control r).2.opened? = none := by
  cases r <;> rfl

@[simp] theorem opened?_complain (c : Console) (control : Option String) (message : Value)
    (answer : Answer) : (complain c control message answer).2.opened? = none :=
  opened?_finish _ control _

@[simp] theorem opened?_display (c : Console) (control : Option String) (page : Page)
    (answer : Answer) : (display c control page answer).2.opened? = none :=
  opened?_finish _ control _

@[simp] theorem opened?_follow (c : Console) (control : Option String) (after : After)
    (m : Navigation × Move) : (follow c control after m).2.opened? = none := by
  obtain ⟨n, move⟩ := m
  cases move with
  | stay moved => exact opened?_finish _ control _
  | fetch f => rfl

@[simp] theorem opened?_conclude (c : Console) (control : Option String) (after : After)
    (moved : Bool) : (conclude c control after moved).2.opened? = none := by
  unfold conclude
  split <;> simp

@[simp] theorem opened?_gather (c : Console) (control : Option String)
    (outcomes : List (Option Outcome)) (failure : Option Value) (calls : List Call) :
    (gather c control outcomes failure calls).2.opened? = none := by
  unfold gather
  split
  · unfold uploaded
    split <;> simp
  · rfl

@[simp] theorem opened?_preview (c : Console) (path : String) (length : Int) :
    (preview c path length).2.opened? = none := by
  unfold preview
  dsimp only
  split
  · rfl
  · exact opened?_finish c none _

theorem opened?_begin (c : Console) (action : Action) :
    (begin c action).2.opened? = action.opened? := by
  cases action with
  | openEntry path kind =>
      by_cases hfile : kind = "FILE"
      · subst hfile
        rfl
      · simp only [begin, openEntry, Action.opened?, if_neg hfile]
        split <;> simp
  | showBlock sheet index =>
      simp only [begin, showBlock]
      split <;> simp [Action.opened?]
  | change ch control =>
      simp only [begin, change]
      split <;> rfl
  | upload directory files control => exact opened?_gather _ control _ _ _
  | preview path length => simp [begin, Action.opened?]
  | tail path => rfl
  | call call => rfl
  | setFragment fragment => rfl
  | select path name => rfl
  | showError message => rfl
  | clearError => rfl
  | _ => exact opened?_follow c none .report _

theorem opened?_resume [Client] {c : Console} {a : Activity} {slot : Nat} {o : Outcome}
    {target : String} (h : (resume c a slot o).2.opened? = some target) : a.phase.opened? = some target := by
  obtain ⟨control, phase⟩ := a
  cases phase with
  | locating path =>
      cases o with
      | ok located => exact h
      | error why => simp [resume] at h
  | describing path located =>
      simp only [resume, described] at h
      split at h
      · simp at h
      · split at h
        · simp at h
        · split at h <;> simp at h
  | listing f after =>
      simp only [resume, listed] at h
      split at h <;> simp at h
  | measuring path =>
      simp only [resume, measured] at h
      split at h
      · simp at h
      · split at h <;> simp at h
  | reading => cases o <;> simp [resume] at h
  | changing => cases o <;> simp [resume, changed] at h
  | calling => simp [resume] at h
  | uploading outcomes failure => simp [resume] at h

theorem path_of_sheetOf [Client] {settings : Settings} {path : String} {located : Value}
    {status : Option Entry} {sheet : FileSheet}
    (h : sheetOf settings path located status = .ok sheet) : sheet.path = Path.normalize path := by
  simp only [sheetOf, FileSheet.ofMap, bind_eq_ok_iff] at h
  obtain ⟨map, -, download, -, permissions, -, hsheet⟩ := h
  cases hsheet
  rfl

end Activity

theorem Phase.path_of_sheet? [Client] {settings : Settings} {phase : Phase} {o : Outcome}
    {sheet : FileSheet} (h : phase.sheet? settings o = some sheet) :
    ∃ path, phase.opened? = some path ∧ sheet.path = Path.normalize path := by
  obtain ⟨path, located, status, rfl, -, hsheet⟩ := sheet?_eq_some h
  exact ⟨path, rfl, Activity.path_of_sheetOf hsheet⟩

/-! ## Steps of sessions -/

namespace Session

variable {s : Session} {owner : Nat} {target : String} {e : Event} {sheet : FileSheet}

def opened? (s : Session) (owner : Nat) : Option String :=
  (s.activity? owner).bind (·.phase.opened?)

section

variable [Client]

theorem opened?_proceed {r : Console × Progress}
    (h : (s.proceed owner r).opened? owner = some target) : r.2.opened? = some target := by
  obtain ⟨a, ha, hopened⟩ := Option.bind_eq_some_iff.mp h
  obtain ⟨calls, hwaiting, -⟩ := waiting_of_busy ha
  rw [hwaiting]
  exact hopened

theorem opened?_step (h : (s.step e).opened? owner = some target) :
    s.opened? owner = some target ∨
    ∃ path, e = .start owner (.openEntry path "FILE") ∧ s.activity? owner = none ∧
      target = Path.normalize path := by
  have hothers {t : Session} {mover : Nat} {r : Console × Progress} (hne : mover ≠ owner)
      (hactivity : t.activity? owner = s.activity? owner)
      (hopened : (t.proceed mover r).opened? owner = some target) :
      s.opened? owner = some target := by
    have hsame : (t.proceed mover r).activity? owner = t.activity? owner :=
      congrArg Share.activity? (share_proceed_of_ne hne t r)
    rwa [opened?, hsame, hactivity] at hopened
  cases e with
  | start mover action =>
      cases hactivity : s.activity? mover with
      | some a => exact .inl (by simpa [step, hactivity] using h)
      | none =>
          rw [step_start hactivity] at h
          by_cases hne : mover = owner
          · subst hne
            have hopened := opened?_proceed h
            rw [Activity.opened?_begin] at hopened
            obtain ⟨path, rfl, rfl⟩ := Action.opened?_eq_some hopened
            exact .inr ⟨path, rfl, hactivity, rfl⟩
          · exact .inl (hothers hne rfl h)
  | reply number r =>
      rcases s.reply_cases number r with ⟨x, -, hactivity, hstep⟩ | ⟨-, -, hkept⟩
      · rw [hstep] at h
        by_cases hne : x.owner = owner
        · subst hne
          have hopened := Activity.opened?_resume (opened?_proceed h)
          exact .inl (by rw [opened?, hactivity]; exact hopened)
        · exact .inl (hothers (t := s.withdraw number) hne rfl h)
      · obtain ⟨a, ha, hopened⟩ := Option.bind_eq_some_iff.mp h
        exact .inl (Option.bind_eq_some_iff.mpr ⟨a, hkept owner a ha, hopened⟩)

/-! ## Whole runs -/

abbrev Event.openFile (owner : Nat) (path : String) : Event :=
  .start owner (.openEntry path "FILE")

/-- An owner that is idle opens a file, and it has not come to an end since. -/
structure Opens (s : Session) (owner : Nat) (path : String) (later : List Event) : Prop where
  idle : s.activity? owner = none
  busy : ∀ middle, middle <+: later →
    (s.run (.openFile owner path :: middle)).activity? owner ≠ none

/-- Something else than a path was chosen last. -/
def Leaves (s : Session) (path : String) (events : List Event) : Prop :=
  ∃ choice, s.lastChoice? events = some choice ∧ choice ≠ some path

theorem opens_run (hidle : s.opened? owner = none) {events : List Event}
    (h : (s.run events).opened? owner = some target) :
    ∃ earlier path later, events = earlier ++ .openFile owner path :: later ∧
      (s.run earlier).Opens owner path later ∧ target = Path.normalize path := by
  induction events using List.reverseRec with
  | nil => simp [hidle] at h
  | append_singleton events e ih =>
      have hrun : s.run (events ++ [e]) = (s.run events).step e := run_append s events [e]
      have hbusy : (s.run (events ++ [e])).activity? owner ≠ none := by
        intro hnone
        simp [opened?, hnone] at h
      rw [hrun] at h
      rcases opened?_step h with hbefore | ⟨path, rfl, hnew, htarget⟩
      · obtain ⟨earlier, path, later, rfl, hopens, htarget⟩ := ih hbefore
        refine ⟨earlier, path, later ++ [e], by simp, ⟨hopens.idle, fun middle hmiddle => ?_⟩,
          htarget⟩
        rcases List.prefix_concat_iff.mp hmiddle with rfl | hprefix
        · rw [← run_append]
          simpa only [List.append_assoc, List.cons_append] using hbusy
        · exact hopens.busy middle hprefix
      · refine ⟨events, path, [], rfl, ⟨hnew, fun middle hmiddle => ?_⟩, htarget⟩
        obtain rfl := List.prefix_nil.mp hmiddle
        rwa [hrun] at hbusy

theorem step_of_sheet (h : s.sheet? e = some (owner, sheet)) :
    (∃ path, s.opened? owner = some path ∧ sheet.path = Path.normalize path) ∧
      (s.step e).console.navigation = { s.console.navigation with
        screen := (s.console.screen.showPage (.file sheet)).1 } := by
  obtain ⟨x, hheard, hshown⟩ := Option.bind_eq_some_iff.mp h
  obtain ⟨found, hsheet, hpair⟩ := Option.map_eq_some_iff.mp hshown
  cases hpair
  cases e with
  | start mover action => cases hheard
  | reply number r =>
      rcases s.reply_cases number r with ⟨y, hy, hactivity, hstep⟩ | ⟨hunheard, -⟩
      · obtain rfl : x = y := Option.some.inj (hheard.symm.trans hy)
        obtain ⟨path, hopened, hpath⟩ := Phase.path_of_sheet? hsheet
        refine ⟨⟨path, by simp [opened?, hactivity, hopened], hpath⟩, ?_⟩
        rw [hstep, navigation_proceed]
        exact Activity.resume_of_sheet hsheet x.slot
      · simp [hunheard] at hheard

theorem selectedPath_of_opens {path : String} {later : List Event} (h : s.Opens owner path later) :
    (s.run (.openFile owner path :: later)).console.navigation.selectedPath =
        some (Path.normalize path) ↔
      ¬ (s.step (.openFile owner path)).Leaves (Path.normalize path) later := by
  have hselected : (s.step (.openFile owner path)).console.navigation.selectedPath =
      some (Path.normalize path) := by
    have hturns := s.turns_step (.openFile owner path)
    simpa [choice?, h.idle, Action.choice?, Action.opened?] using hturns.selected
  rw [run_cons, selectedPath_run, hselected, Leaves]
  cases (s.step (.openFile owner path)).lastChoice? later <;> simp

/-- A sheet is shown at the end of opening its file, with nothing but the screen changed, and it is
that of the selected file exactly when the file was not left since it was opened. -/
theorem shown_file_is_selected_iff (settings : Settings) (fragment : String)
    (events : List Event) (e : Event) :
    let before := (opening settings fragment).run events
    let after := before.step e
    (∀ f, after.console.screen.shown = some (.file f) →
      before.console.screen.shown = some (.file f) ∨
        ∃ owner, before.sheet? e = some (owner, f)) ∧
    ∀ owner sheet, before.sheet? e = some (owner, sheet) →
      ∃ earlier path later, events = earlier ++ .openFile owner path :: later ∧
        let asked := (opening settings fragment).run earlier
        asked.Opens owner path later ∧ sheet.path = Path.normalize path ∧
        after.console.navigation = { before.console.navigation with
          screen := (before.console.screen.showPage (.file sheet)).1 } ∧
        (after.console.navigation.selectedPath = some sheet.path ↔
          ¬ (asked.step (.openFile owner path)).Leaves sheet.path later) := by
  intro before after
  refine ⟨fun f hf => ?_, fun owner sheet hsheet => ?_⟩
  · rcases (before.turns_step e).shown f hf with hbefore | hshown
    · exact .inl hbefore
    · obtain ⟨⟨owner, sheet⟩, hsheet, rfl⟩ := Option.map_eq_some_iff.mp hshown
      exact .inr ⟨owner, hsheet⟩
  · obtain ⟨⟨target, hopened, hpath⟩, hafter⟩ := step_of_sheet hsheet
    obtain ⟨earlier, path, later, hevents, hopens, rfl⟩ := opens_run rfl hopened
    rw [Path.normalize_normalize] at hpath
    refine ⟨earlier, path, later, hevents, hopens, hpath, hafter, ?_⟩
    have hselected := selectedPath_of_opens hopens
    rw [hafter, hpath, ← hselected, ← run_append, ← hevents]

end

attribute [local instance] Client.plain

theorem shown_file_is_selected_of_detour :
    let settings := { Settings.default with gateway := "http://nn:9870" }
    let located : Reply := .response ⟨200, "OK", [], Utf8.encode
      "\x7b\"LocatedBlocks\":\x7b\"fileLength\":0,\"locatedBlocks\":[]\x7d\x7d"⟩
    let later : List Event := [.start 1 (.select (some "/b") none), .reply 1 located,
      .start 1 (.select (some "/a") none)]
    let events : List Event := .openFile 0 "/a/" :: later
    let e : Event := .reply 2 (.failure .connect "refused")
    ∃ sheet, ((opening settings "").run events).sheet? e = some (0, sheet) ∧
      (((opening settings "").run events).step e).console.navigation.selectedPath =
        some sheet.path := by
  intro settings located later events e
  have howner : (((opening settings "").run events).sheet? e).map Prod.fst = some 0 := by
    decide +kernel
  obtain ⟨⟨owner, sheet⟩, hsheet, rfl⟩ := Option.map_eq_some_iff.mp howner
  obtain ⟨earlier, path, rest, hevents, -, hpath, -, hselected⟩ :=
    (shown_file_is_selected_iff settings "" events e).2 0 sheet hsheet
  have hfirst : earlier = [] := by
    rcases earlier with _ | ⟨_, _ | ⟨_, _ | ⟨_, _ | ⟨_, earlier⟩⟩⟩⟩ <;> simp_all [events, later]
  subst hfirst
  obtain ⟨rfl, rfl⟩ : "/a/" = path ∧ later = rest := by simpa [events] using hevents
  refine ⟨sheet, hsheet, hselected.mpr ?_⟩
  rintro ⟨choice, hchoice, hother⟩
  have hlast : (((opening settings "").run []).step (.openFile 0 "/a/")).lastChoice? later =
      some (some "/a") := by decide +kernel
  obtain rfl : some "/a" = choice := Option.some.inj (hlast.symm.trans hchoice)
  exact hother (by rw [hpath]; decide)

/-- The slow answer for a file takes the place of a newer listing, where nothing is selected. -/
theorem left_file_is_shown_over_listing :
    let located : Reply := .response ⟨200, "OK", [], Utf8.encode
      "\x7b\"LocatedBlocks\":\x7b\"fileLength\":0,\"locatedBlocks\":[]\x7d\x7d"⟩
    let listed : Reply := .response ⟨200, "OK", [], Utf8.encode
      "\x7b\"FileStatuses\":\x7b\"FileStatus\":[]\x7d\x7d"⟩
    let described : Reply := .response ⟨200, "OK", [], Utf8.encode
      "\x7b\"FileStatus\":\x7b\"pathSuffix\":\"\",\"type\":\"FILE\"\x7d\x7d"⟩
    let settings := { Settings.default with gateway := "http://nn:9870" }
    let before := (opening settings "").run [.openFile 0 "/a", .reply 1 located,
      .start 1 (.navigate "/b" false), .reply 3 listed]
    let after := before.step (.reply 2 described)
    before.console.screen.shown = some (.listing ⟨"/b", Path.trail "/b", []⟩) ∧
      (before.sheet? (.reply 2 described)).map (fun shown => (shown.1, shown.2.path)) =
        some (0, "/a") ∧
      after.console.screen.shown =
        (before.sheet? (.reply 2 described)).map (fun shown => .file shown.2) ∧
      after.console.navigation.directory = "/b" ∧
      after.console.navigation.selectedPath = none := by
  decide +kernel

end Session

end HdfsBrowser
