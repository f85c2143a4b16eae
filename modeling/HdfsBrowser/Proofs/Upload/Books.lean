import HdfsBrowser.Proofs.Upload.Course

/-!
# The books of an upload

What an upload has sent, what it returns, how often it asks for the listing and
which message it leaves, for every list of files and every order in which their
replies arrive.
-/

namespace HdfsBrowser

section

variable [Client]

namespace Upload

/-- An upload of a session, with all that happens before it and after it. -/
structure History where
  settings : Settings
  fragment : String
  before : List Session.Event
  owner : Nat
  directory : String
  files : List LocalFile
  control : Option String
  after : List Session.Event
  idle : ((Session.opening settings fragment).run before).activity? owner = none
  new : ∀ action, .start owner action ∉ after

namespace History

variable (u : History)

def earlier : Session := (Session.opening u.settings u.fragment).run u.before

def started : Session :=
  u.earlier.step (.start u.owner (.upload u.directory u.files u.control))

def creations : List Call := Upload.creations u.directory u.files

def requests : List Request := u.started.sent.drop u.earlier.sent.length

def turns : List (Draft × Deed) := u.started.turns u.owner u.after

def fates : List Resolution := HdfsBrowser.fates u.settings u.creations (script u.turns)

/-- The message of the file that failed last. -/
def lastFailure? : Option Value :=
  HdfsBrowser.lastFailure? u.settings u.creations (script u.turns)

def share : Session.Share := (u.started.run u.after).share u.owner

def endings : List Ending := u.share.endings.drop (u.earlier.share u.owner).endings.length

/-- What is behind the deeds of an upload: the stages that it has gone through. -/
structure Explains (stage last : Stage) (es : List Ending) : Prop where
  opening : Balances u.settings u.creations stage 0 es
  stage_past : stage.past = []
  run : Run u.settings u.creations stage u.turns last
  last_past : last.past = script u.turns
  describes : Describes u.settings u.creations u.control last u.share
  endings_eq : u.endings = es ++ u.turns.flatMap (·.2.ended)

theorem goes_through_stages :
    u.started.sent = u.earlier.sent ++ u.requests ∧
      u.requests.Perm (u.creations.filterMap (Call.opening? u.settings)) ∧
      u.started.console.navigation = u.earlier.console.navigation ∧
      ∃ stage last es, u.Explains stage last es := by
  have hnumbered : u.earlier.IsNumbered :=
    Session.isNumbered_run (Session.isNumbered_opening u.settings u.fragment) u.before
  have hreached : Session.Reached u.settings u.fragment u.earlier :=
    Session.Reached.opening.run u.before
  have hsettings : u.earlier.console.settings = u.settings :=
    Session.settings_run (Session.opening u.settings u.fragment) u.before
  have hattended : (u.earlier.share u.owner).IsAttended := Session.isAttended_run
    (Session.isNumbered_opening u.settings u.fragment) (fun _ => rfl) u.before
  have hstart : u.started = u.earlier.start u.owner (.upload u.directory u.files u.control) :=
    Session.step_start u.idle _
  obtain ⟨⟨requests, hsent, hperm⟩, hnavigation, stage, es, hpast, hended, hbalances, hdescribes⟩ :=
    opens (hattended u.idle) u.directory u.files u.control
  rw [← hstart] at hsent hnavigation hended hdescribes
  rw [hsettings] at hperm hbalances hdescribes
  have hnumbered' : u.started.IsNumbered := Session.isNumbered_step hnumbered _
  obtain ⟨last, hrun, hlast⟩ := run_turns (hreached.step _).journey.2 hnumbered'
    ((Session.settings_step u.earlier _).trans hsettings) hdescribes u.new
  have hrequests : u.requests = requests :=
    (congrArg (List.drop u.earlier.sent.length) hsent).trans List.drop_left
  refine ⟨hrequests ▸ hsent, hrequests ▸ hperm, hnavigation, stage, last, es,
    hbalances, hpast, hrun, ?_, hlast, ?_⟩
  · rw [past_run (operation_creations u.directory u.files) hrun, hpast]
    rfl
  · have hendings : (u.started.share u.owner).endings =
        (u.earlier.share u.owner).endings ++ es := by
      simp [Session.share, hended, List.filter_map, Function.comp_def]
    rw [endings, share, Session.endings_run hnumbered' u.new, hendings, List.append_assoc,
      List.drop_left, ← Session.snd_turns, List.flatMap_map]
    rfl

variable {u}

theorem Explains.balances {stage last : Stage} {es : List Ending} (h : u.Explains stage last es) :
    Balances u.settings u.creations last (refreshCount u.turns) u.endings := by
  have hbalances := balances_run h.run h.opening
  rwa [Nat.zero_add, ← h.endings_eq] at hbalances

/-- The books of an upload.  All files are sent at once.  The listing is asked for once, as soon as
all files are known, if one was delivered.  When nothing is waited for any longer and nothing was
raised, the upload returns what each file came to, and the message of the last failure is shown. -/
theorem keeps_books (u : History) :
    (u.started.sent = u.earlier.sent ++ u.requests ∧
      ((∀ c ∈ u.creations, (c.opening? u.settings).isSome) →
        (u.requests.map some).Perm (u.creations.map (Call.opening? u.settings)))) ∧
    u.started.console.navigation = u.earlier.console.navigation ∧
    (∃ stage last, stage.past = [] ∧ Run u.settings u.creations stage u.turns last) ∧
    (refreshCount u.turns ≤ 1 ∧ (refreshCount u.turns = 1 ↔
      ∃ os : List Outcome, u.fates = os.map .returned ∧ os.any Activity.isDelivered = true)) ∧
    (u.share.pending = [] → (∀ f, .raised f ∉ u.fates) →
      (∀ why, .aborted (.single why) ∉ u.endings) → ∃ os, u.endings = [.answered (.outcomes os)]) ∧
    ∀ os, .answered (.outcomes os) ∈ u.endings → u.fates = os.map .returned ∧
      ((∃ why, .error why ∈ os) → ∃ message turn, u.lastFailure? = some message ∧
        u.turns.getLast? = some turn ∧ turn.2.after.screen.message = message) := by
  obtain ⟨hsent, hperm, hnavigation, stage, last, es, h⟩ := u.goes_through_stages
  have hfates : HdfsBrowser.fates u.settings u.creations last.past = u.fates := by
    rw [h.last_past]
    rfl
  have hfailure : HdfsBrowser.lastFailure? u.settings u.creations last.past = u.lastFailure? := by
    rw [h.last_past]
    rfl
  have hbalances := h.balances
  rw [← hfates, ← hfailure]
  refine ⟨⟨hsent, fun haddressed => ?_⟩, hnavigation, ⟨stage, last, h.stage_past, h.run⟩,
    hbalances.count, hbalances.returns h.describes, fun os hmem => ?_⟩
  · have hall : ((u.creations.map (Call.opening? u.settings)).filter fun o => o.isSome) =
        u.creations.map (Call.opening? u.settings) :=
      List.filter_eq_self.mpr fun o ho => by
        obtain ⟨c, hc, rfl⟩ := List.mem_map.mp ho
        exact haddressed c hc
    rw [← hall, ← List.map_filterMap_some_eq_filter_map_isSome]
    exact hperm.map some
  · obtain ⟨os', hanswer, hreturned⟩ := hbalances.of_answered hmem
    obtain rfl := Answer.outcomes.inj hanswer
    rw [h.endings_eq] at hmem
    exact ⟨hreturned, fun ⟨_, hwhy⟩ =>
      message_of_failure h.opening h.stage_past h.run hreturned hmem hwhy⟩

end History

end Upload

end

namespace Upload.History

attribute [local instance] Client.plain

theorem keeps_books_of_late_failure :
    let u : History :=
      { settings := { Settings.default with gateway := "http://nn:9870" }
        fragment := ""
        before := []
        owner := 0
        directory := "/d/"
        files := [⟨"a", [1]⟩, ⟨"b", [2]⟩, ⟨"a", [3]⟩]
        control := none
        after := [.reply 3 (.response ⟨201, "Created", [], []⟩),
          .reply 2 (.failure .connect "down"), .reply 1 (.failure .connect "gone"),
          .reply 4 (.failure .connect "")]
        idle := rfl
        new := by simp }
    let failed (reason : String) : Outcome :=
      .unreachable "http://nn:9870/webhdfs/v1/d/a?op=CREATE" reason
    let os : List Outcome := [failed "gone", .ok .null, failed "down"]
    (u.requests.map some).Perm (u.creations.map (Call.opening? u.settings)) ∧
      u.endings = [.answered (.outcomes os)] ∧ u.fates = os.map .returned ∧
      refreshCount u.turns = 1 ∧ u.turns.length = 4 ∧
      ∃ turn, u.turns.getLast? = some turn ∧ turn.2.after.screen.message =
        .str "Failed to retrieve data from http://nn:9870/webhdfs/v1/d/a?op=CREATE: gone" := by
  intro u failed os
  have haddressed : ∀ c ∈ u.creations, (c.opening? u.settings).isSome := by decide +kernel
  have hrun : u.endings = [.answered (.outcomes os)] ∧ u.turns.length = 4 ∧ u.lastFailure? =
      some (.str "Failed to retrieve data from http://nn:9870/webhdfs/v1/d/a?op=CREATE: gone") := by
    decide +kernel
  obtain ⟨hended, hlength, hfailure⟩ := hrun
  obtain ⟨⟨-, hrequests⟩, -, -, ⟨-, hrefreshes⟩, -, hreturned⟩ := keeps_books u
  obtain ⟨hfates, hshown⟩ := hreturned os (by simp [hended])
  obtain ⟨message, turn, hmessage, hlast, hturn⟩ := hshown ⟨_, List.mem_cons_self⟩
  obtain rfl := Option.some.inj (hfailure.symm.trans hmessage)
  exact ⟨hrequests haddressed, hended, hfates, hrefreshes.mpr ⟨os, hfates, rfl⟩, hlength, turn,
    hlast, hturn⟩

end Upload.History

end HdfsBrowser
