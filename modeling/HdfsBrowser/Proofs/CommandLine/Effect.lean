import HdfsBrowser.Proofs.CommandLine.Situation
import HdfsBrowser.Proofs.Gateway.Response
import HdfsBrowser.Proofs.Session.Commitment

/-!
# What actions come to

The message on the screen is set and cleared along the way, by listings, by
refusals and by failures of calls.  When a course of one action after the other
has come to its end, the screen tells whether the last action went well: there
is no message if it did, and else there is one that was also written.
-/

namespace HdfsBrowser

/-! ## Screens -/

namespace Screen

structure Complains (s : Screen) : Prop where
  truthy : s.message.truthy = true
  written : .error s.message ∈ s.written

/-- No message is shown if it went well, and otherwise there is one. -/
def Tells (s : Screen) (well : Prop) : Prop :=
  (well → s.message.truthy = false) ∧ (¬ well → s.Complains)

variable {s : Screen} {well : Prop}

theorem complains_showError {message : Value} (h : message.truthy = true) (s : Screen) :
    (s.showError message).Complains where
  truthy := h
  written := List.mem_append_right _ List.mem_cons_self

theorem tells_of_quiet (h : s.message.truthy = false) (hwell : well) : s.Tells well :=
  ⟨fun _ => h, fun hnot => absurd hwell hnot⟩

theorem Complains.tells (h : s.Complains) (hwell : ¬ well) : s.Tells well :=
  ⟨fun hholds => absurd hholds hwell, fun _ => h⟩

theorem Tells.of_iff {other : Prop} (h : s.Tells well) (hiff : well ↔ other) : s.Tells other :=
  propext hiff ▸ h

theorem message_showPage (s : Screen) (page : Page) :
    (s.showPage page).1.message = s.message ∧ (s.showPage page).1.shown = some page := by
  cases htext : page.text <;> simp only [showPage, htext, and_self]

end Screen

theorem Rejection.message_ne_empty (why : Rejection) : why.message ≠ "" := by
  unfold message
  cases why with
  | emptyName => decide
  | noOwner => decide
  | _ => simp

theorem Activity.unreadable_ne_empty (path : String) (why : Fault) : unreadable path why ≠ "" := by
  unfold unreadable
  simp

/-! ## Listings -/

namespace Navigation

structure IsReady (n : Navigation) : Prop where
  settled : n.settled ≤ n.issued
  committed : n.committed ≤ n.issued

theorem isReady_opening (fragment : String) : (opening fragment).IsReady :=
  ⟨Nat.le_refl 0, Nat.le_refl 0⟩

structure Expects (n : Navigation) (f : Fetch) : Prop where
  number : f.number = n.issued
  settled : n.settled ≤ f.number
  committed : n.committed < f.number

variable {n : Navigation} {f : Fetch} {o : Outcome}

theorem expects_issue (h : n.IsReady) (target : String) :
    (n.issue target).1.Expects ⟨n.issued + 1, target⟩ :=
  ⟨rfl, Nat.le_succ_of_le h.settled, Nat.lt_succ_of_le h.committed⟩

theorem navigate_eq_issue (h : n.committed = 0) (path : String) (force : Bool) :
    n.navigate path force = n.issue (Path.normalize path) := by
  simp [navigate, isAt, h]

theorem unreadable_ne_empty (target : String) (why : Fault) : unreadable target why ≠ "" := by
  unfold unreadable
  simp

/-- A listing that is settled commits or fails, and the screen tells which. -/
structure Settled (n : Navigation) (moved : Bool) (n' : Navigation) : Prop where
  committed : (n'.committed != n.committed) = moved
  screen : n'.screen.Tells (moved = true)
  ready : n'.IsReady

theorem settled_fail (h : n.Expects f) {message : Value} (htruthy : message.truthy = true) :
    n.Settled false (n.fail f message) where
  committed := by simp [fail]
  screen := (Screen.complains_showError htruthy n.screen).tells Bool.false_ne_true
  ready := ⟨h.number.le, h.committed.le.trans h.number.le⟩

theorem message_commit (n : Navigation) (f : Fetch) (l : Listing) :
    (n.commit f l).1.screen.message = .null := by
  cases htext : (Page.listing l).text with
  | ok text => rw [(n.screen_commit_of_text f htext).1]
  | error why => rw [(n.screen_commit_of_fault f htext).1]

theorem settled_commit (h : n.Expects f) (l : Listing) : n.Settled true (n.commit f l).1 where
  committed := by
    have hcommitted : (n.commit f l).1.committed = f.number :=
      congrArg Standing.committed (n.standing_commit f l)
    simpa [hcommitted] using (Nat.ne_of_lt h.committed).symm
  screen := by
    refine Screen.tells_of_quiet ?_ rfl
    rw [message_commit]
    rfl
  ready := by
    obtain ⟨-, hissued, hcommitted, hsettled, -⟩ := Standing.mk.inj (n.standing_commit f l)
    exact ⟨by rw [hsettled, hissued, h.number], by rw [hcommitted, hissued, h.number]⟩

theorem settled_settle (h : n.Expects f) (hspeaks : o.Speaks) {moved : Bool}
    (hmoved : (n.settle f o).2 = .ok moved) : n.Settled moved (n.settle f o).1 := by
  have hfresh : ¬ f.number < n.settled := Nat.not_lt.mpr h.settled
  cases o with
  | error why =>
      have hsettle : n.settle f (.error why) = (n.fail f why.message, .ok false) := by
        simp [settle, hfresh]
      rw [hsettle] at hmoved ⊢
      cases hmoved
      exact settled_fail h (hspeaks why rfl)
  | ok payload =>
      rw [settle_payload h.settled] at hmoved ⊢
      cases hlisting : Listing.ofPayload f.target payload with
      | ok l =>
          simp only [hlisting] at hmoved ⊢
          have htrue : moved = true := by
            cases htext : (Page.listing l).text with
            | ok text =>
                rw [(n.screen_commit_of_text f htext).2] at hmoved
                exact (Except.ok.inj hmoved).symm
            | error why =>
                rw [(n.screen_commit_of_fault f htext).2] at hmoved
                cases hmoved
          exact htrue ▸ settled_commit h l
      | error why =>
          simp only [hlisting] at hmoved ⊢
          split at hmoved
          · next hmalformed =>
              rw [if_pos hmalformed]
              cases hmoved
              exact settled_fail h (truthy_str (unreadable_ne_empty f.target why))
          · cases hmoved

end Navigation

namespace CommandLine.Situation

variable {c last : Console} {ahead : List Action} {records : List Record}
  {busy : Option (Activity × Slots)}

/-! ## Consoles along the way -/

theorem busyAfter_finish (c : Console) (others : Slots) {r : Except Fault Answer}
    (h : busyAfter others (Activity.finish c none r).2 = some busy) :
    busy = none ∧ ∃ answer, r = .ok answer := by
  cases r with
  | ok answer =>
      cases h
      exact ⟨rfl, answer, rfl⟩
  | error why => cases h

theorem conclude_finishes (c : Console) (after : After) (moved : Bool) (others : Slots) :
    busyAfter others (Activity.conclude c none after moved).2 = some none := by
  unfold Activity.conclude
  split <;> rfl

theorem committed_conclude (c : Console) (after : After) (moved : Bool) :
    (Activity.conclude c none after moved).1.navigation.committed = c.navigation.committed := by
  unfold Activity.conclude
  split <;> rfl

theorem committed_gather (c : Console) (outcomes : List (Option Outcome)) (failure : Option Value)
    (calls : List Call) :
    (Activity.gather c none outcomes failure calls).1.navigation.committed =
      c.navigation.committed := by
  unfold Activity.gather Activity.uploaded
  split
  · split
    · rfl
    · exact committed_conclude c _ false
  · rfl

theorem begin_change_of_call {ch : Change} {call : Call} (h : ch.call = .ok call) (c : Console) :
    Activity.begin c (.change ch none) = (c, .waiting ⟨none, .changing⟩ [call]) := by
  simp only [Activity.begin, Activity.change, h]
  rfl

theorem begin_change_of_fault {ch : Change} {f : Fault} (h : ch.call = .error f) (c : Console)
    (hbusy : busyAfter [] (Activity.begin c (.change ch none)).2 = some busy) :
    busy = none ∧ ∃ why : Rejection,
      (Activity.begin c (.change ch none)).1 = c.showError (.str why.message) := by
  simp only [Activity.begin, Activity.change, h] at hbusy ⊢
  cases f with
  | rejected why =>
      cases hbusy
      exact ⟨rfl, why, rfl⟩
  | _ => cases hbusy

theorem tells_display {page : Page} {answer : Answer} {others : Slots}
    (hquiet : c.screen.message.truthy = false)
    (hbusy : busyAfter others (Activity.display c none page answer).2 = some busy) :
    busy = none ∧ (Activity.display c none page answer).1.screen.message.truthy = false ∧
      (Activity.display c none page answer).1.screen.shown = some page := by
  obtain ⟨hmessage, hshown⟩ := c.screen.message_showPage page
  refine ⟨(busyAfter_finish _ others hbusy).1, ?_, hshown⟩
  exact (congrArg Value.truthy hmessage).trans hquiet

theorem tells_unshown {message : Value} (htruthy : message.truthy = true)
    (hblank : c.screen.shown = none) : (c.showError message).screen.Tells
      (∃ sheet, (c.showError message).screen.shown = some (.file sheet)) := by
  refine (Screen.complains_showError htruthy c.screen).tells ?_
  rintro ⟨sheet, hsheet⟩
  rw [show (c.showError message).screen.shown = none from hblank] at hsheet
  cases hsheet

/-! ## Outcomes of an upload -/

theorem mem_of_allKnown? {outcomes : List (Option Outcome)} {all : List Outcome} {o : Outcome}
    (h : Activity.allKnown? outcomes = some all) (ho : some o ∈ outcomes) : o ∈ all := by
  induction outcomes generalizing all with
  | nil => cases ho
  | cons first outcomes ih =>
      cases first with
      | none => cases h
      | some known =>
          obtain ⟨rest, hrest, rfl⟩ := Option.map_eq_some_iff.mp h
          rcases List.mem_cons.mp ho with heq | hmem
          · exact List.mem_cons.mpr (.inl (Option.some.inj heq))
          · exact List.mem_cons_of_mem known (ih hrest hmem)

theorem truthy_lastFailure {failure : Option Value} {o : Outcome}
    (htruthy : ∀ message, failure = some message → message.truthy = true) (hspeaks : o.Speaks)
    (message : Value) (h : Activity.lastFailure failure o = some message) :
    message.truthy = true := by
  cases o with
  | ok v => exact htruthy message h
  | error why =>
      cases h
      exact hspeaks why rfl

def Delivers (count : Nat) (records : List Record) (last : Console) : Prop :=
  ∃ creates o moved, records = creates ++ [⟨.listStatus, o, moved⟩] ∧ creates.length = count ∧
    (∀ r ∈ creates, ∃ v, r = ⟨.create, .ok v, false⟩) ∧ last.screen.Tells (moved = true)

def Spoils (records : List Record) : Prop :=
  ∃ r ∈ records, r.operation = .create ∧ ∃ why, r.outcome = .error why

theorem Spoils.cons (h : Spoils records) (first : Record) : Spoils (first :: records) := by
  obtain ⟨r, hr, hspoils⟩ := h
  exact ⟨r, List.mem_cons_of_mem first hr, hspoils⟩

theorem delivers_cons {count : Nat} (h : Delivers count records last) (v : Value) :
    Delivers (count + 1) (⟨.create, .ok v, false⟩ :: records) last := by
  obtain ⟨creates, o, moved, rfl, rfl, hcreates, htells⟩ := h
  refine ⟨⟨.create, .ok v, false⟩ :: creates, o, moved, rfl, rfl, ?_, htells⟩
  exact List.forall_mem_cons.mpr ⟨⟨v, rfl⟩, hcreates⟩

/-- A failure is shown as soon as there was one or one file is not delivered, and else the files
are delivered. -/
def EndsUpload (failure : Option Value) (count : Nat) (records : List Record) (last : Console) :
    Prop :=
  (failure ≠ none ∨ Spoils records) ∧ last.screen.Complains ∨
    failure = none ∧ Delivers count records last

theorem EndsUpload.cons {failure : Option Value} {o : Outcome} {count : Nat}
    (h : EndsUpload (Activity.lastFailure failure o) count records last) :
    EndsUpload failure (count + 1) (⟨.create, o, false⟩ :: records) last := by
  cases o with
  | ok v =>
      rcases h with ⟨hfails, hlast⟩ | ⟨hclean, hdelivers⟩
      · exact .inl ⟨hfails.imp_right fun hspoils => hspoils.cons _, hlast⟩
      · exact .inr ⟨hclean, delivers_cons hdelivers v⟩
  | error why =>
      rcases h with ⟨-, hlast⟩ | ⟨hclean, -⟩
      · exact .inl ⟨.inr ⟨_, List.mem_cons_self, rfl, why, rfl⟩, hlast⟩
      · cases hclean

variable [Client]

/-! ## Listings of a course -/

/-- The course goes on with a listing that is settled, and then with what was to be done then. -/
def Lists (c : Console) (after : After) (ahead : List Action) (last : Console)
    (records : List Record) : Prop :=
  ∃ (o : Outcome) (moved : Bool) (n : Navigation) (later : List Record),
    records = ⟨.listStatus, o, moved⟩ :: later ∧ n.screen.Tells (moved = true) ∧ n.IsReady ∧
    Reaches ⟨(Activity.conclude { c with navigation := n } none after moved).1, none, ahead⟩ later
      ⟨last, none, []⟩

theorem lists_of_busy {f : Fetch} {after : After} (hexpects : c.navigation.Expects f)
    (h : Reaches ⟨c, some (⟨none, .listing f after⟩, [(0, .listStatus)]), ahead⟩ records
      ⟨last, none, []⟩) : Lists c after ahead last records := by
  obtain ⟨o, busy, later, hspeaks, hbusy, hrecords, hrest⟩ := h.of_single
  simp only [Activity.resume, Activity.listed] at hbusy hrecords hrest
  cases hmoved : (c.navigation.settle f o).2 with
  | error why =>
      rw [hmoved] at hbusy
      cases hbusy
  | ok moved =>
      rw [hmoved] at hbusy hrecords hrest
      have hsettled := Navigation.settled_settle hexpects hspeaks hmoved
      have hfinishes := (conclude_finishes _ after moved []).symm.trans hbusy
      obtain rfl : none = busy := Option.some.inj hfinishes
      rw [committed_conclude] at hrecords
      rw [hsettled.committed] at hrecords
      exact ⟨o, moved, _, later, hrecords, hsettled.screen, hsettled.ready, hrest⟩

theorem lists_of_issue (hready : c.navigation.IsReady) {target : String} {after : After}
    (hbusy : busyAfter [] (Activity.follow c none after (c.navigation.issue target)).2 = some busy)
    (h : Reaches ⟨(Activity.follow c none after (c.navigation.issue target)).1, busy, ahead⟩ records
      ⟨last, none, []⟩) : Lists c after ahead last records := by
  cases hbusy
  exact lists_of_busy (c := { c with navigation := (c.navigation.issue target).1 })
    (Navigation.expects_issue hready target) h

theorem lists_of_navigate (hready : c.navigation.IsReady) (hfirst : c.navigation.committed = 0)
    {path : String}
    (h : Reaches ⟨c, none, .navigate path false :: ahead⟩ records ⟨last, none, []⟩) :
    Lists c .report ahead last records := by
  obtain ⟨busy, hbusy, hrest⟩ := h.of_action
  simp only [Activity.begin, Navigation.navigate_eq_issue hfirst] at hbusy hrest
  exact lists_of_issue hready hbusy hrest

/-! ## Changes -/

theorem reaches_change (hready : c.navigation.IsReady) {ch : Change}
    (h : Reaches ⟨c, none, [.change ch none]⟩ records ⟨last, none, []⟩) :
    ((∃ f, ch.call = .error f) ∧ last.screen.Complains) ∨
    ∃ call, ch.call = .ok call ∧
      ((∃ why, records = [⟨call.operation, .error why, false⟩]) ∧ last.screen.Complains ∨
        ∃ v o moved, records = [⟨call.operation, .ok v, false⟩, ⟨.listStatus, o, moved⟩] ∧
          last.screen.Tells (moved = true)) := by
  obtain ⟨busy, hbusy, hrest⟩ := h.of_action
  cases hcall : ch.call with
  | error f =>
      obtain ⟨rfl, why, hrejects⟩ := begin_change_of_fault hcall c hbusy
      rw [hrejects] at hrest
      obtain ⟨-, rfl⟩ := hrest.of_idle
      exact .inl ⟨⟨f, rfl⟩, Screen.complains_showError (truthy_str why.message_ne_empty) _⟩
  | ok call =>
      rw [begin_change_of_call hcall] at hbusy hrest
      cases hbusy
      obtain ⟨o, busy, later, hspeaks, hbusy, hrecords, hrest⟩ := hrest.of_single
      have hsame : ((Activity.resume c ⟨none, .changing⟩ 0 o).1.navigation.committed !=
          c.navigation.committed) = false := by
        cases o <;> exact bne_self_eq_false c.navigation.committed
      rw [hsame] at hrecords
      refine .inr ⟨call, rfl, ?_⟩
      cases o with
      | error why =>
          cases hbusy
          obtain ⟨rfl, rfl⟩ := hrest.of_idle
          exact .inl ⟨⟨why, hrecords⟩, Screen.complains_showError (hspeaks why rfl) _⟩
      | ok v =>
          obtain ⟨o, moved, n, rest, rfl, htells, -, hrest⟩ := lists_of_issue hready hbusy hrest
          obtain ⟨rfl, rfl⟩ := hrest.of_idle
          exact .inr ⟨v, o, moved, hrecords, htells⟩

/-! ## Files -/

theorem reaches_described (hquiet : c.screen.message.truthy = false)
    (hblank : c.screen.shown = none) {path : String} {located : Value}
    (h : Reaches ⟨c, some (⟨none, .describing path located⟩, [(0, .fileStatus)]), []⟩ records
      ⟨last, none, []⟩) : last.screen.Tells (∃ sheet, last.screen.shown = some (.file sheet)) := by
  obtain ⟨o, busy, later, -, hbusy, -, hrest⟩ := h.of_single
  simp only [Activity.resume, Activity.described] at hbusy hrest
  cases hstatus : Activity.statusOf o with
  | error why =>
      rw [hstatus] at hbusy
      obtain ⟨-, answer, hanswer⟩ := busyAfter_finish _ [] hbusy
      cases hanswer
  | ok status =>
      rw [hstatus] at hbusy hrest
      dsimp only at hbusy hrest
      split at hbusy
      · next sheet hsheet =>
          rw [hsheet] at hrest
          obtain ⟨rfl, hmessage, hshown⟩ := tells_display hquiet hbusy
          obtain ⟨-, rfl⟩ := hrest.of_idle
          exact Screen.tells_of_quiet hmessage ⟨sheet, hshown⟩
      · next why hwhy =>
          rw [hwhy] at hrest
          split at hbusy
          · next hmalformed =>
              simp only [hmalformed, if_true] at hrest
              cases hbusy
              obtain ⟨-, rfl⟩ := hrest.of_idle
              exact tells_unshown (truthy_str (Activity.unreadable_ne_empty _ why)) hblank
          · obtain ⟨-, answer, hanswer⟩ := busyAfter_finish _ [] hbusy
            cases hanswer

theorem reaches_info (hquiet : c.screen.message.truthy = false) (hblank : c.screen.shown = none)
    {path : String} (h : Reaches ⟨c, none, [.openEntry path "FILE"]⟩ records ⟨last, none, []⟩) :
    last.screen.Tells (∃ sheet, last.screen.shown = some (.file sheet)) := by
  obtain ⟨busy, hbusy, hrest⟩ := h.of_action
  let selecting :=
    c.select (some (Path.normalize path)) (some (Path.baseName (Path.normalize path)))
  rw [show Activity.begin c (.openEntry path "FILE") = (selecting, .waiting ⟨none,
    .locating (Path.normalize path)⟩ [.blocks (Path.normalize path)]) from rfl] at hbusy hrest
  cases hbusy
  obtain ⟨o, busy, later, hspeaks, hbusy, -, hrest⟩ := hrest.of_single
  cases o with
  | error why =>
      cases hbusy
      obtain ⟨-, rfl⟩ := hrest.of_idle
      exact tells_unshown (hspeaks why rfl) hblank
  | ok located =>
      cases hbusy
      exact reaches_described (c := selecting) hquiet hblank hrest

theorem reaches_reading (hquiet : c.screen.message.truthy = false)
    (h : Reaches ⟨c, some (⟨none, .reading⟩, [(0, .openFile)]), []⟩ records ⟨last, none, []⟩) :
    last.screen.Tells (∃ content, records = [⟨.openFile, .ok content, false⟩]) := by
  obtain ⟨o, busy, later, hspeaks, hbusy, rfl, hrest⟩ := h.of_single
  cases o with
  | error why =>
      cases hbusy
      obtain ⟨rfl, rfl⟩ := hrest.of_idle
      exact (Screen.complains_showError (hspeaks why rfl) _).tells (by simp)
  | ok content =>
      obtain ⟨rfl, hmessage, -⟩ := tells_display hquiet hbusy
      obtain ⟨rfl, rfl⟩ := hrest.of_idle
      refine Screen.tells_of_quiet hmessage ⟨content, ?_⟩
      rw [List.singleton_inj, Record.mk.injEq]
      exact ⟨rfl, rfl, bne_self_eq_false c.navigation.committed⟩

theorem reaches_tail (hquiet : c.screen.message.truthy = false) {path : String}
    (h : Reaches ⟨c, none, [.tail path]⟩ records ⟨last, none, []⟩) :
    last.screen.Tells (∃ status content, records =
      [⟨.fileStatus, .ok status, false⟩, ⟨.openFile, .ok content, false⟩]) := by
  obtain ⟨busy, hbusy, hbegun⟩ := h.of_action
  simp only [Activity.begin] at hbusy hbegun
  cases hbusy
  obtain ⟨o, busy, later, hspeaks, hbusy, rfl, hrest⟩ := hbegun.of_single
  cases o with
  | error why =>
      cases hbusy
      obtain ⟨-, rfl⟩ := hrest.of_idle
      exact (Screen.complains_showError (hspeaks why rfl) _).tells (by simp)
  | ok status =>
      cases hlength : Activity.lengthOf status with
      | error why =>
          have hfails : Activity.resume c ⟨none, .measuring path⟩ 0 (.ok status) =
              Activity.finish c none (.error why) := by
            simp only [Activity.resume, Activity.measured, hlength]
          rw [hfails] at hbusy
          obtain ⟨-, answer, hanswer⟩ := busyAfter_finish _ [] hbusy
          cases hanswer
      | ok length =>
          have hreads : Activity.resume c ⟨none, .measuring path⟩ 0 (.ok status) =
              Activity.preview c path length := by
            simp only [Activity.resume, Activity.measured, hlength]
          rw [hreads] at hbusy hrest ⊢
          by_cases hfits : Numeral.Fits (TailWindow.ofFile length c.settings.tailChunk).start
          · simp only [Activity.preview, if_pos hfits] at hbusy hrest ⊢
            cases hbusy
            simp only [slotsOf, List.mapIdx_singleton, List.nil_append, Call.operation_reading,
              bne_self_eq_false] at hrest ⊢
            refine (reaches_reading hquiet hrest).of_iff ⟨?_, ?_⟩
            · rintro ⟨content, rfl⟩
              exact ⟨status, content, rfl⟩
            · rintro ⟨_, content, hrecords⟩
              exact ⟨content, (List.cons.inj hrecords).2⟩
          · simp only [Activity.preview, if_neg hfits] at hbusy
            obtain ⟨-, answer, hanswer⟩ := busyAfter_finish _ [] hbusy
            cases hanswer

/-! ## Uploads -/

theorem complains_uploaded (hready : c.navigation.IsReady) {outcomes : List Outcome}
    {message : Value} (htruthy : message.truthy = true)
    (hbusy : busyAfter [] (Activity.uploaded c none outcomes (some message)).2 = some busy)
    (h : Reaches ⟨(Activity.uploaded c none outcomes (some message)).1, busy, []⟩ records
      ⟨last, none, []⟩) : last.screen.Complains := by
  unfold Activity.uploaded at hbusy h
  split at hbusy
  · next hany =>
      rw [if_pos hany] at h
      obtain ⟨o, moved, n, later, rfl, -, -, hrest⟩ := lists_of_issue hready hbusy h
      obtain ⟨-, rfl⟩ := hrest.of_idle
      exact Screen.complains_showError htruthy _
  · next hnone =>
      rw [if_neg hnone] at h
      cases hbusy
      obtain ⟨-, rfl⟩ := h.of_idle
      exact Screen.complains_showError htruthy _

theorem tells_uploaded (hready : c.navigation.IsReady) {outcomes : List Outcome}
    (hdelivered : outcomes.any Activity.isDelivered = true)
    (hbusy : busyAfter [] (Activity.uploaded c none outcomes none).2 = some busy)
    (h : Reaches ⟨(Activity.uploaded c none outcomes none).1, busy, []⟩ records
      ⟨last, none, []⟩) :
    ∃ o moved, records = [⟨.listStatus, o, moved⟩] ∧ last.screen.Tells (moved = true) := by
  unfold Activity.uploaded at hbusy h
  rw [if_pos hdelivered] at hbusy h
  obtain ⟨o, moved, n, later, hrecords, htells, -, hrest⟩ := lists_of_issue hready hbusy h
  obtain ⟨rfl, rfl⟩ := hrest.of_idle
  exact ⟨o, moved, hrecords, htells⟩

theorem endsUpload_uploaded (hready : c.navigation.IsReady) {outcomes : List Outcome}
    {failure : Option Value} (htruthy : ∀ message, failure = some message → message.truthy = true)
    (hdelivered : failure = none → outcomes.any Activity.isDelivered = true)
    (hbusy : busyAfter [] (Activity.uploaded c none outcomes failure).2 = some busy)
    (h : Reaches ⟨(Activity.uploaded c none outcomes failure).1, busy, []⟩ records
      ⟨last, none, []⟩) : EndsUpload failure 0 records last := by
  cases failure with
  | some message =>
      refine .inl ⟨.inl (Option.some_ne_none message), ?_⟩
      exact complains_uploaded hready (htruthy message rfl) hbusy h
  | none =>
      obtain ⟨o, moved, rfl, htells⟩ := tells_uploaded hready (hdelivered rfl) hbusy h
      exact .inr ⟨rfl, [], o, moved, rfl, rfl, List.forall_mem_nil _, htells⟩

/-- By induction on the slots that are still open: what is known of the others is in the failure
that was noted last. -/
theorem reaches_uploading (hready : c.navigation.IsReady) {outcomes : List (Option Outcome)}
    {failure : Option Value} {slots : Slots} (hcovers : Covers outcomes slots)
    (htruthy : ∀ message, failure = some message → message.truthy = true)
    (h : Reaches ⟨c, some (⟨none, .uploading outcomes failure⟩, slots), []⟩ records
      ⟨last, none, []⟩) : EndsUpload failure slots.length records last := by
  induction hlength : slots.length generalizing outcomes failure slots records with
  | zero =>
      obtain ⟨slot, op, others, -, -, -, hslots, -⟩ := h.of_busy
      simp [hslots.length_eq] at hlength
  | succ n ih =>
      obtain ⟨slot, op, others, o, busy, later, hslots, hspeaks, hbusy, hrecords, hrest⟩ :=
        h.of_busy
      have hothers : others.length = n := by simpa [hslots.length_eq] using hlength
      have hopen := (hcovers.2 slot op).mp (hslots.mem_iff.mpr List.mem_cons_self)
      have hnext := covers_set hcovers hslots o
      have hspoken := truthy_lastFailure htruthy hspeaks
      obtain rfl : op = .create := hopen.1
      have hgathers : Activity.resume c ⟨none, .uploading outcomes failure⟩ slot o =
        Activity.gather c none (outcomes.set slot (some o)) (Activity.lastFailure failure o) [] :=
          rfl
      rw [hgathers] at hbusy hrecords hrest
      rw [committed_gather, bne_self_eq_false] at hrecords
      rw [hrecords]
      refine EndsUpload.cons ?_
      unfold Activity.gather at hbusy hrest
      cases hall : Activity.allKnown? (outcomes.set slot (some o)) with
      | none =>
          rw [hall] at hbusy hrest
          cases hbusy
          rw [show others ++ slotsOf [] = others from List.append_nil others] at hrest
          exact ih hnext hspoken hrest hothers
      | some all =>
          rw [hall] at hbusy hrest
          have hnil : others = [] := by
            rw [hnext.eq_nil_iff, ← allKnown?_eq_none_iff, hall]
            exact Option.some_ne_none all
          have hdelivered (hclean : Activity.lastFailure failure o = none) :
              all.any Activity.isDelivered = true := by
            have hknown : some o ∈ outcomes.set slot (some o) :=
              List.mem_set (List.getElem?_eq_some_iff.mp hopen.2).1 _
            refine List.any_eq_true.mpr ⟨o, mem_of_allKnown? hall hknown, ?_⟩
            cases o with
            | ok v => rfl
            | error why => cases hclean
          subst hnil hothers
          exact endsUpload_uploaded hready hspoken hdelivered hbusy hrest

theorem reaches_upload_nothing {directory : String}
    (h : Reaches ⟨c, none, [.upload directory [] none]⟩ records ⟨last, none, []⟩) :
    records = [] ∧ last = c := by
  obtain ⟨busy, hbusy, hrest⟩ := h.of_action
  cases hbusy
  exact hrest.of_idle

theorem reaches_upload (hready : c.navigation.IsReady) {directory : String}
    {files : List LocalFile} (hfiles : files ≠ [])
    (h : Reaches ⟨c, none, [.upload directory files none]⟩ records ⟨last, none, []⟩) :
    Spoils records ∧ last.screen.Complains ∨ Delivers files.length records last := by
  obtain ⟨busy, hbusy, hrest⟩ := h.of_action
  have hcovers := covers_upload (Path.normalize directory) files
  have hwaits : Activity.allKnown? (files.map fun _ => none) = none := by
    rw [allKnown?_eq_none_iff, List.mem_map]
    exact (List.exists_mem_of_ne_nil files hfiles).imp fun f hf => ⟨hf, rfl⟩
  simp only [Activity.begin, Activity.upload, Activity.gather, hwaits] at hbusy hrest
  cases hbusy
  have hquiet (message : Value) (heq : none = some message) : message.truthy = true :=
    absurd heq.symm (Option.some_ne_none message)
  rcases reaches_uploading hready hcovers hquiet hrest with ⟨hfails, hlast⟩ | ⟨-, hdelivers⟩
  · exact .inl ⟨hfails.resolve_left (not_not.mpr rfl), hlast⟩
  · right
    simpa [slotsOf] using hdelivers

end CommandLine.Situation

end HdfsBrowser
