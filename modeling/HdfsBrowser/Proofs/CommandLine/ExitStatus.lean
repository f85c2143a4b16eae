import HdfsBrowser.CommandLine.Run
import HdfsBrowser.Proofs.CommandLine.Course
import HdfsBrowser.Proofs.CommandLine.Effect
import HdfsBrowser.Proofs.Computation

/-!
# Exit statuses

The exit status of a run is read off the message that is left on the screen.
Whatever happens on the way, that message tells whether the command did what it
is for: the status is 0 exactly if it did, and else it is 1 and an error was
written.
-/

namespace HdfsBrowser.CommandLine

open Situation

/-! ## Success -/

structure Transcript where
  records : List Record
  screen : Screen
  deriving DecidableEq, Repr

def Transcript.EndsListed (t : Transcript) (before : List Record) : Prop :=
  ∃ o, t.records = before ++ [⟨.listStatus, o, true⟩]

/-- Every file could be read and is delivered, and the last listing commits: the one that follows
the files if there are any, since without a file none follows the first. -/
structure Transcript.Uploads (t : Transcript) (read : String → Except LocalFault Bytes)
    (paths : List String) (before : List Record) : Prop where
  readable : ∀ path ∈ paths, ∃ content, read path = .ok content
  listed : t.EndsListed before
  count : (before.filter (·.operation = .create)).length = paths.length
  delivered : ∀ r ∈ before, r.operation = .create → ∃ v, r.outcome = .ok v

/-- A change is accepted, its call succeeds, and the listing that follows commits. -/
def Transcript.Changes (t : Transcript) (ch : Change) : Prop :=
  ∃ call, ch.call = .ok call ∧
    ∃ before v, t.EndsListed (before ++ [⟨call.operation, .ok v, false⟩])

def Command.Succeeds (read : String → Except LocalFault Bytes) (t : Transcript) : Command → Prop
  | .list _ => t.EndsListed []
  | .info _ => ∃ sheet, t.screen.shown = some (.file sheet)
  | .tail _ => ∃ status content,
      t.records = [⟨.fileStatus, .ok status, false⟩, ⟨.openFile, .ok content, false⟩]
  | .put _ paths => ∃ before, t.Uploads read paths before
  | .configure _ => True
  | command => ∃ before ch,
      command.actions read = .ok (before ++ [.change ch none]) ∧ t.Changes ch

variable {w : Surroundings} {args : List String} {script : List (Nat × Reply)}
  {i : Invocation} {c last : Console} {records : List Record} {t : Transcript}
  {read : String → Except LocalFault Bytes}

theorem Transcript.endsListed_iff {before : List Record} (earlier : List Record) {r : Record}
    (h : t.records = earlier ++ [r]) :
    t.EndsListed before ↔ before = earlier ∧ r.operation = .listStatus ∧ r.commits = true := by
  unfold EndsListed
  rw [h]
  constructor
  · rintro ⟨o, hends⟩
    obtain ⟨hbefore, hlast⟩ := List.append_inj' hends rfl
    cases hlast
    exact ⟨hbefore.symm, rfl, rfl⟩
  · obtain ⟨operation, o, commits⟩ := r
    rintro ⟨rfl, rfl, rfl⟩
    exact ⟨o, rfl⟩

theorem Transcript.endsListed_listing (earlier : List Record) {o : Outcome} {moved : Bool}
    (h : t.records = earlier ++ [⟨.listStatus, o, moved⟩]) :
    t.EndsListed earlier ↔ moved = true := by
  simp [endsListed_iff earlier h]

theorem Transcript.Uploads.not_spoils {paths : List String} {before : List Record}
    (h : t.Uploads read paths before) : ¬ Spoils t.records := by
  rintro ⟨r, hr, hoperation, why, hwhy⟩
  obtain ⟨o, hends⟩ := h.listed
  rw [hends] at hr
  rcases List.mem_append.mp hr with hbefore | hlisting
  · obtain ⟨v, hv⟩ := h.delivered r hbefore hoperation
    rw [hwhy] at hv
    cases hv
  · rw [List.mem_singleton.mp hlisting] at hoperation
    cases hoperation

theorem asks_change_iff {command : Command} (before : List Action) {ch : Change}
    (h : command.actions read = .ok (before ++ [.change ch none])) :
    t.Changes ch ↔ ∃ before ch, command.actions read = .ok (before ++ [.change ch none]) ∧
      t.Changes ch := by
  constructor
  · intro hchanges
    exact ⟨before, ch, h, hchanges⟩
  · rintro ⟨before', ch', hactions, hchanges⟩
    have hsame := List.append_inj' (Except.ok.inj (h.symm.trans hactions)) rfl
    cases hsame.2
    exact hchanges

/-! ## Local files -/

theorem readFiles_ok {paths : List String} {files : List LocalFile}
    (h : readFiles read paths = .ok files) :
    files.length = paths.length ∧ ∀ path ∈ paths, ∃ content, read path = .ok content := by
  induction paths generalizing files with
  | nil =>
      cases h
      exact ⟨rfl, List.forall_mem_nil _⟩
  | cons path paths ih =>
      obtain ⟨content, hcontent, h⟩ := bind_eq_ok_iff.mp h
      obtain ⟨rest, hrest, h⟩ := bind_eq_ok_iff.mp h
      cases h
      obtain ⟨hlength, hreadable⟩ := ih hrest
      refine ⟨congrArg (· + 1) hlength, List.forall_mem_cons.mpr ⟨?_, hreadable⟩⟩
      cases hread : read path with
      | ok content => exact ⟨content, rfl⟩
      | error why =>
          rw [hread] at hcontent
          cases hcontent

theorem readFiles_error {paths : List String} {message : String}
    (h : readFiles read paths = .error message) :
    ∃ path ∈ paths, ∃ why, read path = .error why := by
  induction paths with
  | nil => cases h
  | cons path paths ih =>
      rcases bind_eq_error_iff.mp h with hfirst | ⟨content, -, h⟩
      · refine ⟨path, List.mem_cons_self, ?_⟩
        cases hread : read path with
        | ok content =>
            rw [hread] at hfirst
            cases hfirst
        | error why => exact ⟨why, rfl⟩
      · rcases bind_eq_error_iff.mp h with hrest | ⟨rest, -, h⟩
        · obtain ⟨other, hother, hwhy⟩ := ih hrest
          exact ⟨other, List.mem_cons_of_mem path hother, hwhy⟩
        · cases h

/-! ## Preparations -/

theorem prepare_of_command (hparse : Invocation.parse args = .ok i)
    (hverb : i.command.verb ≠ .config) :
    prepare w args =
      match i.command.actions w.localFile with
      | .error message => .error (.plain (.status 1) "" (message ++ "\n") w.store)
      | .ok actions =>
        match openSession w i with
        | .error f => .error (.raised f "" w.store)
        | .ok session => .ok (session, actions) := by
  unfold prepare
  rw [hparse]
  obtain ⟨command, gateway, user, debug⟩ := i
  cases command with
  | configure change => exact absurd rfl hverb
  | _ => rfl

theorem stands_opening (settings : Settings) :
    Course.Stands (Session.opening settings "") (.opening settings "") none where
  console := rfl
  numbered := Session.isNumbered_opening settings ""
  clean := rfl
  running := rfl
  owners := List.forall_mem_nil _
  slots := .refl _

theorem complaints_ne_empty {color : Bool} {message : Value} {written : List Output}
    (h : .error message ∈ written) : Report.complaints color written ≠ "" := by
  induction written with
  | nil => cases h
  | cons first written ih =>
      rcases List.mem_cons.mp h with rfl | hmem
      · simp [Report.complaints]
      · cases first with
        | page text => exact ih hmem
        | error other => simp [Report.complaints]

theorem statusOf_of_tells {s : Screen} {well : Prop} (h : s.Tells well) (color : Bool) :
    (Report.statusOf s = 0 ↔ well) ∧
      (Report.statusOf s ≠ 0 →
        Report.statusOf s = 1 ∧ Report.complaints color s.written ≠ "") := by
  by_cases hwell : well
  · simp [Report.statusOf, h.1 hwell, hwell]
  · have hcomplains := h.2 hwell
    simp [Report.statusOf, hcomplains.truthy, hwell, complaints_ne_empty hcomplains.written]

section

variable [Client]

/-! ## Runs with replies in any order -/

/-- The report of a run in which each reply goes to the request that stands in some place among
those that wait. -/
def play (w : Surroundings) (args : List String) (script : List (Nat × Reply)) : Report :=
  match prepare w args with
  | .error report => report
  | .ok (session, actions) => .ofCourse w (Course.play session actions script)

theorem run_eq_play (w : Surroundings) (args : List String) (replies : List Reply) :
    run w args replies = play w args (replies.map (Prod.mk 0)) := by
  unfold run play
  cases prepare w args with
  | error report => rfl
  | ok prepared => simp only [Course.run_eq]

def transcript (w : Surroundings) (args : List String) (script : List (Nat × Reply)) :
    Transcript :=
  match prepare w args with
  | .error _ => ⟨[], .blank⟩
  | .ok (session, actions) =>
    ⟨Course.records session actions script,
      (Course.play session actions script).session.console.screen⟩

/-! ## What is left on the screen -/

theorem tells_change (hready : c.navigation.IsReady) {ch : Change} (earlier : List Record)
    (h : Reaches ⟨c, none, [.change ch none]⟩ records ⟨last, none, []⟩)
    (ht : t = ⟨earlier ++ records, last.screen⟩) : last.screen.Tells (t.Changes ch) := by
  subst ht
  rcases reaches_change hready h with
    ⟨⟨why, hrefused⟩, hlast⟩ | ⟨call, hcall, ⟨⟨why, rfl⟩, hlast⟩ | ⟨v, o, moved, rfl, htells⟩⟩
  · refine hlast.tells ?_
    rintro ⟨call, hcall, -⟩
    rw [hrefused] at hcall
    cases hcall
  · refine hlast.tells ?_
    rintro ⟨_, _, before, v, hends⟩
    cases ((Transcript.endsListed_iff earlier rfl).mp hends).2.2
  · refine htells.of_iff ?_
    have hrecords : earlier ++ [⟨call.operation, .ok v, false⟩, ⟨.listStatus, o, moved⟩] =
        (earlier ++ [⟨call.operation, .ok v, false⟩]) ++ [⟨.listStatus, o, moved⟩] := by simp
    constructor
    · intro hmoved
      exact ⟨call, hcall, earlier, v, (Transcript.endsListed_listing _ hrecords).mpr hmoved⟩
    · rintro ⟨_, _, before, v, hends⟩
      exact ((Transcript.endsListed_iff _ hrecords).mp hends).2.2

theorem tells_upload (hready : c.navigation.IsReady) {directory : String} {paths : List String}
    {files : List LocalFile} (hfiles : readFiles read paths = .ok files) {o : Outcome}
    {moved : Bool} (htells : c.screen.Tells (moved = true))
    (h : Reaches ⟨c, none, [.upload directory files none]⟩ records ⟨last, none, []⟩)
    (ht : t = ⟨⟨.listStatus, o, moved⟩ :: records, last.screen⟩) :
    last.screen.Tells (∃ before, t.Uploads read paths before) := by
  subst ht
  obtain ⟨hlength, hreadable⟩ := readFiles_ok hfiles
  by_cases hnone : files = []
  · subst hnone
    obtain ⟨rfl, rfl⟩ := reaches_upload_nothing h
    refine htells.of_iff ?_
    constructor
    · intro hmoved
      exact ⟨[], hreadable, (Transcript.endsListed_listing [] rfl).mpr hmoved, hlength,
        List.forall_mem_nil _⟩
    · rintro ⟨before, huploads⟩
      exact ((Transcript.endsListed_iff [] rfl).mp huploads.listed).2.2
  · rcases reaches_upload hready hnone h with
      ⟨hspoils, hlast⟩ | ⟨creates, o', moved', rfl, hcount, hcreates, hlast⟩
    · refine hlast.tells ?_
      rintro ⟨before, huploads⟩
      exact huploads.not_spoils (hspoils.cons _)
    · refine hlast.of_iff ?_
      have hrecords : (⟨.listStatus, o, moved⟩ :: (creates ++ [⟨.listStatus, o', moved'⟩])) =
          (⟨.listStatus, o, moved⟩ :: creates) ++ [⟨.listStatus, o', moved'⟩] := rfl
      constructor
      · intro hmoved
        refine ⟨⟨.listStatus, o, moved⟩ :: creates, hreadable,
          (Transcript.endsListed_listing _ hrecords).mpr hmoved, ?_, ?_⟩
        · have hkept : creates.filter (·.operation = .create) = creates := by
            refine List.filter_eq_self.mpr fun r hr => ?_
            obtain ⟨v, rfl⟩ := hcreates r hr
            rfl
          simp [hkept, hcount, hlength]
        · rintro r (_ | ⟨_, hr⟩) hoperation
          · cases hoperation
          · obtain ⟨v, rfl⟩ := hcreates r hr
            exact ⟨v, rfl⟩
      · rintro ⟨before, huploads⟩
        exact ((Transcript.endsListed_iff _ hrecords).mp huploads.listed).2.2

theorem tells_success {command : Command} (hverb : command.verb ≠ .config) {actions : List Action}
    (hactions : command.actions read = .ok actions) (settings : Settings)
    (h : Reaches ⟨.opening settings "", none, actions⟩ records ⟨last, none, []⟩)
    (ht : t = ⟨records, last.screen⟩) : last.screen.Tells (command.Succeeds read t) := by
  have hready : (Console.opening settings "").navigation.IsReady := Navigation.isReady_opening ""
  subst ht
  cases command with
  | list path =>
      cases hactions
      obtain ⟨o, moved, n, later, rfl, htells, -, hrest⟩ := lists_of_navigate hready rfl h
      obtain ⟨rfl, rfl⟩ := hrest.of_idle
      exact htells.of_iff (Transcript.endsListed_listing [] rfl).symm
  | info path =>
      cases hactions
      exact reaches_info rfl rfl h
  | tail path =>
      cases hactions
      exact reaches_tail rfl h
  | makeDirectory path permission =>
      cases hactions
      obtain ⟨o, moved, n, later, rfl, -, hlisted, hrest⟩ := lists_of_navigate hready rfl h
      have htells := tells_change hlisted [⟨.listStatus, o, moved⟩] hrest rfl
      exact htells.of_iff (asks_change_iff [.navigate _ false] rfl)
  | put directory paths =>
      obtain ⟨files, hfiles, hactions⟩ := bind_eq_ok_iff.mp hactions
      cases hactions
      obtain ⟨o, moved, n, later, rfl, htells, hlisted, hrest⟩ := lists_of_navigate hready rfl h
      exact tells_upload (c := { Console.opening settings "" with navigation := n }) hlisted hfiles
        htells hrest rfl
  | setPermission permission path =>
      cases hactions
      exact (tells_change hready [] h rfl).of_iff (asks_change_iff [] rfl)
  | setOwner owner path =>
      cases hactions
      exact (tells_change hready [] h rfl).of_iff (asks_change_iff [] rfl)
  | setReplication count path =>
      cases hactions
      exact (tells_change hready [] h rfl).of_iff (asks_change_iff [] rfl)
  | configure change => exact absurd rfl hverb

/-! ## Exit statuses -/

theorem exits_unread (hparse : Invocation.parse args = .ok i) (hverb : i.command.verb ≠ .config)
    {message : String} (hactions : i.command.actions w.localFile = .error message)
    (script : List (Nat × Reply)) :
    play w args script = .plain (.status 1) "" (message ++ "\n") w.store ∧
      ¬ i.command.Succeeds w.localFile (transcript w args script) := by
  have hprepare := prepare_of_command (w := w) hparse hverb
  rw [hactions] at hprepare
  refine ⟨by simp only [play, hprepare], ?_⟩
  obtain ⟨command, gateway, user, debug⟩ := i
  cases command with
  | put directory paths =>
      rintro ⟨before, huploads⟩
      rcases bind_eq_error_iff.mp hactions with hfiles | ⟨files, -, hfiles⟩
      · obtain ⟨path, hpath, why, hwhy⟩ := readFiles_error hfiles
        obtain ⟨content, hcontent⟩ := huploads.readable path hpath
        rw [hwhy] at hcontent
        cases hcontent
      · cases hfiles
  | configure change => exact absurd rfl hverb
  | _ => cases hactions

theorem exits_after_course (hparse : Invocation.parse args = .ok i)
    (hverb : i.command.verb ≠ .config) {actions : List Action}
    (hactions : i.command.actions w.localFile = .ok actions) {code : Nat}
    (hexit : (play w args script).exit = .status code) :
    ∃ screen : Screen, screen.Tells (i.command.Succeeds w.localFile (transcript w args script)) ∧
      code = Report.statusOf screen ∧
      (play w args script).errors = Report.complaints w.colorErrors screen.written := by
  have hprepare := prepare_of_command (w := w) hparse hverb
  simp only [hactions] at hprepare
  cases hsession : openSession w i with
  | error why =>
      simp only [play, hprepare, hsession] at hexit
      cases hexit
  | ok session =>
      obtain ⟨settings, -, rfl⟩ := map_eq_ok_iff.mp hsession
      simp only [hsession] at hprepare
      simp only [play, transcript, hprepare] at hexit ⊢
      cases hclean :
          Course.abortOf? (Course.play (Session.opening settings "") actions script).session with
      | some why =>
          simp only [Report.ofCourse, hclean] at hexit
          cases hexit
      | none =>
          simp only [Report.ofCourse, hclean] at hexit ⊢
          have hreaches := Course.reaches_play (stands_opening settings) actions script hclean
          cases hexit
          exact ⟨_, tells_success hverb hactions settings hreaches rfl, rfl, rfl⟩

/-- Wherever the replies go, and in particular when each goes to the request that has waited
longest: the exit status of a command that no fault ends is 0 exactly when the command succeeded,
and else it is 1 and an error was written.  When a file that is to be sent cannot be read, no
request was sent. -/
theorem exit_status_tells (hparse : Invocation.parse args = .ok i)
    (hverb : i.command.verb ≠ .config) {code : Nat}
    (hexit : (play w args script).exit = .status code) :
    (code = 0 ↔ i.command.Succeeds w.localFile (transcript w args script)) ∧
      (¬ i.command.Succeeds w.localFile (transcript w args script) →
        code = 1 ∧ (play w args script).errors ≠ "") ∧
      (∀ directory paths, i.command = .put directory paths →
        (∃ path ∈ paths, ∃ why, w.localFile path = .error why) →
        (play w args script).requests = []) ∧
      ∀ replies, script = replies.map (Prod.mk 0) → run w args replies = play w args script := by
  have hruns (replies : List Reply) (hscript : script = replies.map (Prod.mk 0)) :
      run w args replies = play w args script := hscript ▸ run_eq_play w args replies
  cases hactions : i.command.actions w.localFile with
  | error message =>
      obtain ⟨hplay, hfails⟩ := exits_unread hparse hverb hactions script
      rw [hplay] at hexit ⊢
      cases hexit
      exact ⟨iff_of_false (by decide) hfails, fun _ => ⟨rfl, by simp [Report.plain]⟩,
        fun _ _ _ _ => rfl, by rwa [hplay] at hruns⟩
  | ok actions =>
      obtain ⟨screen, htells, rfl, herrors⟩ := exits_after_course hparse hverb hactions hexit
      obtain ⟨hzero, hone⟩ := statusOf_of_tells htells w.colorErrors
      refine ⟨hzero, fun hfails => ?_, fun directory paths hput hunreadable => ?_, hruns⟩
      · rw [herrors]
        exact hone (mt hzero.mp hfails)
      · obtain ⟨path, hpath, why, hwhy⟩ := hunreadable
        rw [hput] at hactions
        obtain ⟨files, hfiles, -⟩ := bind_eq_ok_iff.mp hactions
        obtain ⟨content, hcontent⟩ := (readFiles_ok hfiles).2 path hpath
        rw [hwhy] at hcontent
        cases hcontent

end

attribute [local instance] Client.plain

def Surroundings.twoFiles : Surroundings where
  store := none
  localFile path := if path = "a" ∨ path = "b" then .ok (Utf8.encode path) else .error .missing
  settingsPath := "config.json"
  colorOutput := false
  colorErrors := false

theorem exit_status_tells_of_half_upload :
    let w := Surroundings.twoFiles
    let args := ["put", "/d", "a", "b"]
    let listed : Reply := .response ⟨200, "OK", [], Utf8.encode "\x7b\"FileStatuses\":\x7b\x7d\x7d"⟩
    let script : List (Nat × Reply) := [(0, listed), (1, Course.silence),
      (0, .response ⟨201, "Created", [], []⟩), (0, listed)]
    (∃ i, Invocation.parse args = .ok i ∧ i.command = .put "/d" ["a", "b"] ∧
      ¬ i.command.Succeeds w.localFile (transcript w args script)) ∧
      (play w args script).exit = .status 1 ∧ (play w args script).errors ≠ "" := by
  intro w args listed script
  let i : Invocation := ⟨.put "/d" ["a", "b"], none, none, false⟩
  have hparse : Invocation.parse args = .ok i := by decide +kernel
  have hexit : (play w args script).exit = .status 1 := by decide +kernel
  obtain ⟨hzero, hone, -⟩ := exit_status_tells hparse (by decide) hexit
  have hfails : ¬ i.command.Succeeds w.localFile (transcript w args script) :=
    mt hzero.mpr (by decide)
  exact ⟨⟨i, hparse, rfl, hfails⟩, hexit, (hone hfails).2⟩

/-- Without a file nothing is delivered, so no listing follows the first one; and yet that exits
well. -/
theorem nothing_to_upload_exits_well :
    let w := Surroundings.twoFiles
    let args := ["put", "/d", "--", "--"]
    let script : List (Nat × Reply) := [(0, .response ⟨200, "OK", [],
      Utf8.encode "\x7b\"FileStatuses\":\x7b\"FileStatus\":[]\x7d\x7d"⟩)]
    Invocation.parse args = .ok ⟨.put "/d" [], none, none, false⟩ ∧
      (play w args script).exit = .status 0 ∧
      ∀ (first : Record) (before : List Record) (o : Outcome),
        (transcript w args script).records ≠ first :: (before ++ [⟨.listStatus, o, true⟩]) := by
  intro w args script
  have hone : (transcript w args script).records.length = 1 := by decide +kernel
  refine ⟨by decide +kernel, by decide +kernel, fun first before o hrecords => ?_⟩
  simp [hrecords] at hone

end HdfsBrowser.CommandLine
