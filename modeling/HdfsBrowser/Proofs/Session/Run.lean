import HdfsBrowser.Proofs.Gateway.Resolution
import HdfsBrowser.Proofs.Session.Share

/-!
# Runs of a session

A run starts actions and gives replies, in any order.  Each of its steps is a
step of at most one owner, and what another owner has in the session stays as
it was.
-/

namespace HdfsBrowser

/-! ## The settings stay -/

namespace Activity

@[simp] theorem settings_enable (c : Console) (control : Option String) :
    (c.enable control).settings = c.settings := by
  cases control <;> rfl

@[simp] theorem settings_disable (c : Console) (control : Option String) :
    (c.disable control).settings = c.settings := by
  cases control <;> rfl

@[simp] theorem settings_register (c : Console) (control : Option String) :
    (c.register control).settings = c.settings := by
  cases control with
  | none => rfl
  | some name =>
      unfold Console.register
      dsimp only
      split <;> rfl

@[simp] theorem settings_finish (c : Console) (control : Option String)
    (r : Except Fault Answer) : (finish c control r).1.settings = c.settings :=
  settings_enable c control

@[simp] theorem settings_complain (c : Console) (control : Option String) (message : Value)
    (answer : Answer) : (complain c control message answer).1.settings = c.settings :=
  settings_finish (c.showError message) control _

@[simp] theorem settings_display (c : Console) (control : Option String) (page : Page)
    (answer : Answer) : (display c control page answer).1.settings = c.settings :=
  settings_finish (c.setScreen _) control _

@[simp] theorem settings_follow (c : Console) (control : Option String) (after : After)
    (m : Navigation × Move) : (follow c control after m).1.settings = c.settings := by
  obtain ⟨n, move⟩ := m
  cases move with
  | stay moved => exact settings_finish { c with navigation := n } control _
  | fetch f => rfl

@[simp] theorem settings_conclude (c : Console) (control : Option String) (after : After)
    (moved : Bool) : (conclude c control after moved).1.settings = c.settings := by
  unfold conclude
  split <;> simp

@[simp] theorem settings_gather (c : Console) (control : Option String)
    (outcomes : List (Option Outcome)) (failure : Option Value) (calls : List Call) :
    (gather c control outcomes failure calls).1.settings = c.settings := by
  unfold gather
  split
  · unfold uploaded
    split <;> simp
  · rfl

@[simp] theorem settings_preview (c : Console) (path : String) (length : Int) :
    (preview c path length).1.settings = c.settings := by
  unfold preview
  dsimp only
  split
  · rfl
  · exact settings_finish c none _

theorem settings_begin (c : Console) (action : Action) :
    (begin c action).1.settings = c.settings := by
  cases action with
  | openEntry path kind =>
      simp only [begin, openEntry]
      split
      · simp
      · split
        · rfl
        · simp
  | showBlock sheet index =>
      simp only [begin, showBlock]
      split <;> simp
  | change ch control =>
      simp only [begin, change]
      split
      · simp
      · exact settings_register c control
      · exact settings_register c control
  | upload directory files control => simp [begin, upload]
  | preview path length => simp only [begin, settings_preview]
  | tail path => rfl
  | call call => rfl
  | setFragment fragment => exact settings_finish (c.setFragment fragment) none _
  | select path name => exact settings_finish (c.select path name) none _
  | showError message => exact settings_finish (c.showError message) none _
  | clearError => exact settings_finish c.clearError none _
  | _ => exact settings_follow c none .report _

theorem settings_listed (c : Console) (control : Option String) (f : Fetch) (after : After)
    (o : Outcome) : (listed c control f after o).1.settings = c.settings := by
  unfold listed
  dsimp only
  split
  · exact settings_conclude { c with navigation := (c.navigation.settle f o).1 } control after _
  · exact settings_finish { c with navigation := (c.navigation.settle f o).1 } control _

theorem settings_described [Client] (c : Console) (control : Option String) (path : String)
    (located : Value) (o : Outcome) :
    (described c control path located o).1.settings = c.settings := by
  unfold described
  split
  · simp
  · split
    · simp
    · split <;> simp

theorem settings_resume [Client] (c : Console) (a : Activity) (slot : Nat) (o : Outcome) :
    (resume c a slot o).1.settings = c.settings := by
  obtain ⟨control, phase⟩ := a
  cases phase with
  | listing f after => exact settings_listed c control f after o
  | locating path => cases o <;> simp [resume]
  | describing path located => exact settings_described c control path located o
  | measuring path =>
      simp only [resume, measured]
      split
      · simp
      · split <;> simp
  | reading => cases o <;> simp [resume]
  | changing => cases o <;> simp [resume, changed]
  | calling => simp [resume]
  | uploading outcomes failure => simp [resume]

end Activity

/-! ## Drafts -/

variable [Client]

namespace Draft

theorem ofCalls_nil (settings : Settings) (slot : Nat) : ofCalls settings slot [] = ([], []) := by
  rw [ofCalls.eq_def]

theorem ofCalls_cons (settings : Settings) (slot : Nat) (call : Call) (rest : List Call) :
    ofCalls settings slot (call :: rest) =
      match ofCall settings slot call with
      | .ok d =>
        (d :: (ofCalls settings (slot + 1) rest).1, (ofCalls settings (slot + 1) rest).2)
      | .error why =>
        ((ofCalls settings (slot + 1) rest).1,
          .address why :: (ofCalls settings (slot + 1) rest).2) := by
  have hrest := ofCalls.eq_def settings slot (call :: rest)
  dsimp only at hrest
  refine hrest.trans ?_
  -- Left in place, the draft of the call would be evaluated.
  generalize ofCall settings slot call = draft, ofCalls settings (slot + 1) rest = drafted
  cases draft <;> rfl

end Draft

namespace Session

variable {s : Session} {owner other : Nat}

/-! ## Steps -/

inductive Event where
  | start (owner : Nat) (action : Action)
  | reply (number : Nat) (r : Reply)

/-- An owner that is busy starts nothing else, and a reply to no request is lost. -/
def step (s : Session) : Event → Session
  | .start owner action => if (s.activity? owner).isSome then s else s.start owner action
  | .reply number r => (s.answer? number r).getD s

def run (s : Session) (events : List Event) : Session := events.foldl step s

@[simp] theorem run_nil (s : Session) : s.run [] = s := rfl

@[simp] theorem run_cons (s : Session) (e : Event) (events : List Event) :
    s.run (e :: events) = (s.step e).run events := rfl

theorem run_append (s : Session) (earlier later : List Event) :
    s.run (earlier ++ later) = (s.run earlier).run later := List.foldl_append

def mover? (s : Session) : Event → Option Nat
  | .start owner _ => if (s.activity? owner).isSome then none else some owner
  | .reply number _ => (s.pending? number).map (·.owner)

theorem step_reply {number : Nat} {p : Pending} (h : s.pending? number = some p) (r : Reply) :
    s.step (.reply number r) = (s.withdraw number).release p r := by
  simp [step, answer?, h]

theorem step_start (h : s.activity? owner = none) (action : Action) :
    s.step (.start owner action) = s.start owner action := by
  simp [step, h]

/-- All that a step can do, and whose step it is.  What nobody waits for is taken off the list of
abandoned requests at most. -/
theorem step_cases (s : Session) (e : Event) :
    (s.mover? e = none ∧ ∃ abandoned, s.step e = { s with abandoned }) ∨
    (∃ owner action, s.activity? owner = none ∧ s.mover? e = some owner ∧
      s.step e = s.start owner action) ∨
    ∃ number p r, s.pending? number = some p ∧ s.mover? e = some p.owner ∧
      s.step e = (s.withdraw number).release p r := by
  cases e with
  | start owner action =>
      cases hactivity : s.activity? owner with
      | none => exact .inr (.inl ⟨owner, action, hactivity, by simp [mover?, hactivity],
          step_start hactivity action⟩)
      | some a => exact .inl ⟨by simp [mover?, hactivity], s.abandoned, by simp [step, hactivity]⟩
  | reply number r =>
      cases hpending : s.pending? number with
      | none =>
          refine .inl ⟨by simp [mover?, hpending], ?_⟩
          cases hanswer : s.answer? number r with
          | none => exact ⟨s.abandoned, by simp [step, hanswer]⟩
          | some t =>
              rcases answer?_cases hanswer with ⟨p, hp, -⟩ | ⟨-, abandoned, ht⟩
              · simp [hpending] at hp
              · exact ⟨abandoned, by simp [step, hanswer, ht]⟩
      | some p => exact .inr (.inr ⟨number, p, r, hpending, by simp [mover?, hpending],
          step_reply hpending r⟩)

theorem step_of_mover?_eq_none {e : Event} (h : s.mover? e = none) :
    ∃ abandoned, s.step e = { s with abandoned } := by
  rcases s.step_cases e with ⟨-, hstep⟩ | ⟨_, _, -, hmoved, -⟩ | ⟨_, _, _, -, hmoved, -⟩
  · exact hstep
  · simp [h] at hmoved
  · simp [h] at hmoved

/-! ## Reaching -/

theorem Reached.step {settings : Settings} {fragment : String} (h : Reached settings fragment s)
    (e : Event) : Reached settings fragment (s.step e) := by
  cases e with
  | start owner action =>
      cases hactivity : s.activity? owner with
      | none => exact step_start hactivity action ▸ .start h hactivity action
      | some a => simpa [Session.step, hactivity] using h
  | reply number r =>
      cases hanswer : s.answer? number r with
      | none => simpa [Session.step, hanswer] using h
      | some t => simpa [Session.step, hanswer] using Reached.answer h hanswer

theorem Reached.run {settings : Settings} {fragment : String} (h : Reached settings fragment s)
    (events : List Event) : Reached settings fragment (s.run events) := by
  induction events generalizing s with
  | nil => exact h
  | cons e events ih => exact ih (h.step e)

theorem isSound_step (h : s.IsSound) (e : Event) : (s.step e).IsSound := by
  rcases s.step_cases e with ⟨-, abandoned, hstep⟩ | ⟨owner, action, hidle, -, hstep⟩ |
    ⟨number, p, r, hp, -, hstep⟩
  · exact hstep ▸ ⟨h.owners, h.orderly⟩
  · exact hstep ▸ (leadsTo_start h hidle action).2
  · have hwithdrawn : (s.withdraw number).IsSound := ⟨h.owners, h.orderly⟩
    exact hstep ▸ (leadsTo_release hwithdrawn p r).2

/-! ## What an owner has -/

theorem waiting_of_busy {r : Console × Progress} {a : Activity}
    (h : (s.proceed owner r).activity? owner = some a) :
    ∃ calls, r.2 = .waiting a calls ∧ (Draft.ofCalls r.1.settings 0 calls).2 = [] := by
  unfold proceed at h
  dsimp only at h
  split at h
  · simp [activity?_close] at h
  · simp [activity?_close] at h
  · next b calls hwaiting =>
      unfold wait at h
      dsimp only at h
      split at h
      · next hfaults =>
          simp only [activity?, (sendAll_running _ owner _).1] at h
          have hb := activity?_setActivity { s with console := r.1 } owner b
          obtain rfl : b = a := Option.some.inj (hb.symm.trans h)
          exact ⟨calls, hwaiting, List.isEmpty_iff.mp hfaults⟩
      · simp [abort, activity?_close] at h

section Others

variable (hne : other ≠ owner)
include hne

theorem share_wait_of_ne (s : Session) (a : Activity) (calls : List Call) :
    (s.wait other a calls).share owner = s.share owner := by
  have hsent (ds : List Draft) :
      ((s.setActivity other a).sendAll other ds).share owner = s.share owner := by
    rw [share_sendAll_of_ne hne, share_setActivity_of_ne hne]
  unfold wait
  dsimp only
  split
  · exact hsent _
  · rw [share_abort_of_ne hne]
    exact hsent _

theorem share_proceed_of_ne (s : Session) (r : Console × Progress) :
    (s.proceed other r).share owner = s.share owner := by
  unfold proceed
  dsimp only
  split
  · exact share_close_of_ne hne _ _
  · exact share_close_of_ne hne _ _
  · exact share_wait_of_ne hne _ _ _

end Others

theorem share_release_of_ne (s : Session) {p : Pending} (hne : p.owner ≠ owner) (r : Reply) :
    (s.release p r).share owner = s.share owner := by
  unfold release
  split
  · rfl
  · dsimp only
    split
    · exact share_send_of_ne hne s _
    · exact share_proceed_of_ne hne s _
    · exact share_abort_of_ne hne s _ _

/-! ## Numbers of requests -/

theorem isNumbered_proceed (h : s.IsNumbered) (owner : Nat) (r : Console × Progress) :
    (s.proceed owner r).IsNumbered := by
  unfold proceed
  dsimp only
  split
  · exact h.of_sublist List.filter_sublist rfl
  · exact h.of_sublist List.filter_sublist rfl
  · next a calls _ =>
      unfold wait
      dsimp only
      have hsent (ds : List Draft) :
          (({ s with console := r.1 }.setActivity owner a).sendAll owner ds).IsNumbered :=
        isNumbered_sendAll (isNumbered_setActivity (isNumbered_setConsole h r.1) owner a) owner ds
      split
      · exact hsent _
      · exact isNumbered_abort (hsent _) owner _ _

theorem isNumbered_release (h : s.IsNumbered) (p : Pending) (r : Reply) :
    (s.release p r).IsNumbered := by
  unfold release
  split
  · exact h
  · dsimp only
    split
    · exact isNumbered_send h _ _
    · exact isNumbered_proceed h _ _
    · exact isNumbered_abort h _ _ _

theorem isNumbered_step (h : s.IsNumbered) (e : Event) : (s.step e).IsNumbered := by
  rcases s.step_cases e with ⟨-, abandoned, hstep⟩ | ⟨owner, action, hidle, -, hstep⟩ |
    ⟨number, p, r, hp, -, hstep⟩
  · exact hstep ▸ ⟨h.increasing, h.number_le⟩
  · exact hstep ▸ isNumbered_proceed h owner _
  · exact hstep ▸ isNumbered_release (isNumbered_withdraw h number) p r

theorem isNumbered_run (h : s.IsNumbered) (events : List Event) : (s.run events).IsNumbered := by
  induction events generalizing s with
  | nil => exact h
  | cons e events ih => exact ih (isNumbered_step h e)

theorem share_step_of_ne (h : s.IsNumbered) {e : Event} (hmover : s.mover? e ≠ some owner) :
    (s.step e).share owner = s.share owner := by
  rcases s.step_cases e with ⟨-, abandoned, hstep⟩ | ⟨mover, action, hidle, hmoved, hstep⟩ |
    ⟨number, p, r, hp, hmoved, hstep⟩
  · rw [hstep]
    rfl
  · have hne : mover ≠ owner := fun heq => hmover (heq ▸ hmoved)
    rw [hstep]
    exact share_proceed_of_ne hne s _
  · have hne : p.owner ≠ owner := fun heq => hmover (heq ▸ hmoved)
    rw [hstep, share_release_of_ne _ hne, share_withdraw_of_ne h hp hne]

/-! ## Requests that somebody waits for -/

theorem isAttended_proceed (s : Session) (owner : Nat) (r : Console × Progress) :
    ((s.proceed owner r).share owner).IsAttended := by
  unfold proceed
  dsimp only
  split
  · exact isAttended_close _ owner _
  · exact isAttended_close _ owner _
  · next a calls _ =>
      unfold wait
      dsimp only
      split
      · apply isAttended_of_activity? (a := a)
        simp only [activity?, (sendAll_running _ owner _).1]
        exact activity?_setActivity { s with console := r.1 } owner a
      · exact isAttended_close _ owner _

theorem isAttended_release {p : Pending} (h : (s.share p.owner).IsAttended) (r : Reply) :
    ((s.release p r).share p.owner).IsAttended := by
  unfold release
  split
  · exact h
  · next a ha =>
      dsimp only
      split
      · exact isAttended_of_activity? (a := a) ha
      · exact isAttended_proceed s p.owner _
      · exact isAttended_close _ p.owner _

theorem isAttended_step (hnumbered : s.IsNumbered) (h : (s.share owner).IsAttended) (e : Event) :
    ((s.step e).share owner).IsAttended := by
  by_cases hmover : s.mover? e = some owner
  · rcases s.step_cases e with ⟨hstays, -⟩ | ⟨mover, action, hidle, hmoved, hstep⟩ |
      ⟨number, p, r, hp, hmoved, hstep⟩
    · simp [hstays] at hmover
    · obtain rfl := Option.some.inj (hmoved.symm.trans hmover)
      exact hstep ▸ isAttended_proceed s mover _
    · obtain rfl := Option.some.inj (hmoved.symm.trans hmover)
      refine hstep ▸ isAttended_release (fun hidle => ?_) r
      rw [pending_share_withdraw, h hidle]
      rfl
  · rwa [share_step_of_ne hnumbered hmover]

theorem isAttended_run (hnumbered : s.IsNumbered) (h : (s.share owner).IsAttended)
    (events : List Event) : ((s.run events).share owner).IsAttended := by
  induction events generalizing s with
  | nil => exact h
  | cons e events ih => exact ih (isNumbered_step hnumbered e) (isAttended_step hnumbered h e)

/-! ## Endings -/

theorem ended_wait (s : Session) (owner : Nat) (a : Activity) (calls : List Call) :
    ∃ es : List Ending, (s.wait owner a calls).ended = s.ended ++ es.map (owner, ·) := by
  have hsent (ds : List Draft) :
      ((s.setActivity owner a).sendAll owner ds).ended = s.ended := ended_sendAll _ owner ds
  unfold wait
  dsimp only
  split
  · exact ⟨[], by simp [hsent]⟩
  · rw [ended_abort, hsent]
    exact ⟨[_], rfl⟩

theorem ended_proceed (s : Session) (owner : Nat) (r : Console × Progress) :
    ∃ es : List Ending, (s.proceed owner r).ended = s.ended ++ es.map (owner, ·) := by
  unfold proceed
  dsimp only
  split
  · exact ⟨[_], rfl⟩
  · exact ⟨[_], rfl⟩
  · exact ended_wait { s with console := r.1 } owner _ _

theorem ended_release (s : Session) (p : Pending) (r : Reply) :
    ∃ es : List Ending, (s.release p r).ended = s.ended ++ es.map (p.owner, ·) := by
  unfold release
  split
  · exact ⟨[], by simp⟩
  · dsimp only
    split
    · exact ⟨[], by simp [send]⟩
    · exact ended_proceed s p.owner _
    · exact ⟨[_], rfl⟩

theorem ended_step {e : Event} (h : s.mover? e = some owner) :
    ∃ es : List Ending, (s.step e).ended = s.ended ++ es.map (owner, ·) := by
  rcases s.step_cases e with ⟨hstays, -⟩ | ⟨mover, action, hidle, hmoved, hstep⟩ |
    ⟨number, p, r, hp, hmoved, hstep⟩
  · simp [hstays] at h
  · obtain rfl := Option.some.inj (hmoved.symm.trans h)
    exact hstep ▸ ended_proceed s mover _
  · obtain rfl := Option.some.inj (hmoved.symm.trans h)
    exact hstep ▸ ended_release (s.withdraw number) p r

/-! ## The settings of a session -/

theorem settings_wait (s : Session) (owner : Nat) (a : Activity) (calls : List Call) :
    (s.wait owner a calls).console.settings = s.console.settings := by
  have hconsole (ds : List Draft) :
      ((s.setActivity owner a).sendAll owner ds).console = s.console :=
    (sendAll_running (s.setActivity owner a) owner ds).2
  unfold wait
  dsimp only
  split
  · rw [hconsole]
  · exact (Activity.settings_enable _ a.control).trans (by rw [hconsole])

theorem settings_proceed (s : Session) (owner : Nat) (r : Console × Progress) :
    (s.proceed owner r).console.settings = r.1.settings := by
  unfold proceed
  dsimp only
  split
  · rfl
  · rfl
  · exact settings_wait _ owner _ _

theorem settings_release (s : Session) (p : Pending) (r : Reply) :
    (s.release p r).console.settings = s.console.settings := by
  unfold release
  split
  · rfl
  · next a _ =>
      dsimp only
      split
      · rfl
      · rw [settings_proceed, Activity.settings_resume]
      · exact Activity.settings_enable s.console a.control

theorem settings_step (s : Session) (e : Event) :
    (s.step e).console.settings = s.console.settings := by
  rcases s.step_cases e with ⟨-, abandoned, hstep⟩ | ⟨owner, action, hidle, -, hstep⟩ |
    ⟨number, p, r, hp, -, hstep⟩
  · rw [hstep]
  · rw [hstep]
    exact (settings_proceed s owner _).trans (Activity.settings_begin s.console action)
  · rw [hstep]
    exact settings_release (s.withdraw number) p r

theorem settings_run (s : Session) (events : List Event) :
    (s.run events).console.settings = s.console.settings := by
  induction events generalizing s with
  | nil => rfl
  | cons e events ih => rw [run_cons, ih, settings_step]

end Session

end HdfsBrowser
