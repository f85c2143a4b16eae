import HdfsBrowser.Proofs.Session.Commitment
import HdfsBrowser.Proofs.Session.Run

/-!
# What replies do for an owner

A reply to a request of an owner either ends the owner's activity or leaves it
with requests that wait.  What the replies of a run do is collected here reply
by reply, and an owner comes to its end in no other way.  An activity with one
request that asks for a listing, or that has got one, is treated here for all
kinds of activities.
-/

namespace HdfsBrowser

/-! ## Answers that can be settled -/

namespace Navigation

/-- The answer comes too late, or it is a failure, or its payload stops at no number without bound
and lists nothing that cannot be shown. -/
def Settles (n : Navigation) (f : Fetch) (o : Outcome) : Prop :=
  ∀ payload, o = .ok payload → n.settled ≤ f.number →
    ¬ Listing.StopsUnbounded payload ∧
      ∀ l, Listing.ofPayload f.target payload = .ok l → ∀ r ∈ l.rows, r.IsShowable

variable {n : Navigation} {f : Fetch} {o : Outcome}

theorem settle_returns (h : n.Settles f o) : ∃ moved, (n.settle f o).2 = .ok moved := by
  by_cases hlate : f.number < n.settled
  · exact ⟨false, by simp [settle, hlate]⟩
  · cases o with
    | error why => exact ⟨false, by simp [settle, hlate]⟩
    | ok payload =>
        have hfresh : n.settled ≤ f.number := Nat.le_of_not_lt hlate
        obtain ⟨hbounded, hshowable⟩ := h payload rfl hfresh
        cases hlisting : Listing.ofPayload f.target payload with
        | ok l =>
            obtain ⟨text, htext⟩ := (Page.exists_text_listing_iff l).mpr (hshowable l hlisting)
            rw [settle_of_listing hfresh hlisting]
            exact ⟨true, (n.screen_commit_of_text f htext).2⟩
        | error why =>
            rcases Listing.ofPayload_eq_error hlisting with hmalformed | ⟨-, hstops⟩
            · rw [settle_of_malformed hfresh hlisting hmalformed]
              exact ⟨false, rfl⟩
            · exact absurd hstops hbounded

theorem settle_raises (h : ¬ n.Settles f o) : ∃ why, (n.settle f o).2 = .error why := by
  unfold Settles at h
  push Not at h
  obtain ⟨payload, rfl, hfresh, hlists⟩ := h
  by_cases hstops : Listing.StopsUnbounded payload
  · rw [settle_of_stopsUnbounded hfresh hstops]
    exact ⟨.tooLarge, rfl⟩
  · obtain ⟨l, hlisting, hrow⟩ := hlists hstops
    obtain ⟨n', why, hsettle, -⟩ := settle_of_unshowable hfresh hlisting hrow
    exact ⟨why, by rw [hsettle]⟩

end Navigation

/-! ## Deeds -/

/-- What a reply to a request of an owner makes of the session. -/
structure Deed where
  reply : Reply
  before : Navigation
  after : Navigation
  sent : List Request
  ended : List Ending

def Ending.ofResult : Except Fault Answer → Ending
  | .ok answer => .answered answer
  | .error why => .aborted (.single why)

namespace Session

variable {s : Session} {owner : Nat} {a : Activity} {d : Draft}

/-! ## One request at a time -/

structure Share.Awaits (x : Share) (a : Activity) (d : Draft) : Prop where
  activity : x.activity? = some a
  pending : x.pending.map (·.draft) = [d]

structure Share.IsIdle (x : Share) : Prop where
  activity : x.activity? = none
  pending : x.pending = []

theorem isIdle_close (s : Session) (owner : Nat) (e : Ending) :
    ((s.close owner e).share owner).IsIdle where
  activity := activity?_close s owner e
  pending := by simp [share, close]

theorem awaits_send (hactivity : s.activity? owner = some a)
    (hpending : (s.share owner).pending = []) (d : Draft) :
    ((s.send owner d).share owner).Awaits a d where
  activity := hactivity
  pending := by
    have hnone : s.pending.filter (·.owner == owner) = [] := hpending
    simp [share, send, hnone]

theorem mover?_eq_some {e : Event} {events : List Event}
    (hnew : ∀ action, .start owner action ∉ e :: events) (hmover : s.mover? e = some owner) :
    ∃ number r, e = .reply number r := by
  cases e with
  | start mover action =>
      have hother : mover ≠ owner := fun heq => hnew action (heq ▸ List.mem_cons_self)
      simp only [mover?] at hmover
      split at hmover
      · cases hmover
      · exact absurd (Option.some.inj hmover) hother
  | reply number r => exact ⟨number, r, rfl⟩

theorem mover?_ne_of_isIdle (hidle : (s.share owner).IsIdle) (number : Nat) (r : Reply) :
    s.mover? (.reply number r) ≠ some owner := by
  intro hmover
  obtain ⟨p, hp, howner⟩ := Option.map_eq_some_iff.mp hmover
  have hmine : p ∈ (s.share owner).pending :=
    List.mem_filter.mpr ⟨(mem_of_pending? hp).1, by simpa using howner⟩
  simp [hidle.pending] at hmine

/-! ## Ends and further requests -/

structure EndsBy (s t : Session) (owner : Nat) (e : Ending) (n : Navigation) : Prop where
  sent : t.sent = s.sent
  ended : t.ended = s.ended ++ [(owner, e)]
  idle : (t.share owner).IsIdle
  navigation : t.console.navigation = n

/-- One more request was sent, and the owner waits for the reply to that one alone. -/
structure AsksBy (s t : Session) (owner : Nat) (request : Request) (a : Activity) (d : Draft)
    (n : Navigation) : Prop where
  sent : t.sent = s.sent ++ [request]
  ended : t.ended = s.ended
  awaits : (t.share owner).Awaits a d
  navigation : t.console.navigation = n

theorem endsBy_abort (s : Session) (owner : Nat) (a : Activity) (fs : List Fault) :
    s.EndsBy (s.abort owner a fs) owner (.aborted (a.abandon s.console fs).2)
      s.console.navigation where
  sent := rfl
  ended := ended_abort s owner a fs
  idle := isIdle_close _ owner _
  navigation := Activity.navigation_enable s.console a.control

/-! ## Listings -/

theorem follow_refresh (c : Console) (control : Option String) (after : After)
    (hnormal : Path.normalize c.navigation.directory = c.navigation.directory) :
    Activity.follow c control after c.navigation.refresh =
      ({ c with navigation :=
          { c.navigation with issued := c.navigation.issued + 1, status := .loading } },
        .waiting ⟨control, .listing ⟨c.navigation.issued + 1, c.navigation.directory⟩ after⟩
          [.listing c.navigation.directory]) := by
  simp only [Navigation.refresh, Navigation.navigate, hnormal]
  rfl

theorem listed_of_settles {c : Console} {f : Fetch} {o : Outcome} (h : c.navigation.Settles f o)
    (control : Option String) (after : After) :
    ∃ moved, Activity.listed c control f after o =
      Activity.conclude { c with navigation := (c.navigation.settle f o).1 } control after
        moved := by
  obtain ⟨moved, hmoved⟩ := Navigation.settle_returns h
  exact ⟨moved, by simp only [Activity.listed, hmoved]⟩

theorem listed_of_not_settles {c : Console} {f : Fetch} {o : Outcome}
    (h : ¬ c.navigation.Settles f o) (control : Option String) (after : After) :
    ∃ why, (c.navigation.settle f o).2 = .error why ∧ Activity.listed c control f after o =
      Activity.finish { c with navigation := (c.navigation.settle f o).1 } control
        (.error why) := by
  obtain ⟨why, hwhy⟩ := Navigation.settle_raises h
  exact ⟨why, hwhy, by simp only [Activity.listed, hwhy]⟩

/-! ## Steps of an owner -/

variable [Client]

theorem wait_of_request (s : Session) {call : Call} {address : String} {request : Request}
    (h : call.request s.console.settings = .ok (address, request)) (owner : Nat) (a : Activity) :
    s.wait owner a [call] =
      (s.setActivity owner a).send owner ⟨0, call.operation, address, .start request⟩ := by
  have hdraft : Draft.ofCall s.console.settings 0 call =
      .ok ⟨0, call.operation, address, .start request⟩ := by
    rw [Draft.ofCall, h]
    rfl
  unfold wait
  rw [Draft.ofCalls_cons, Draft.ofCalls_nil, hdraft]
  rfl

theorem wait_of_fault (s : Session) {call : Call} {why : UrlFault}
    (h : call.request s.console.settings = .error why) (owner : Nat) (a : Activity) :
    s.wait owner a [call] = (s.setActivity owner a).abort owner a [.address why] := by
  have hdraft : Draft.ofCall s.console.settings 0 call = .error why := by
    rw [Draft.ofCall, h]
    rfl
  unfold wait
  rw [Draft.ofCalls_cons, Draft.ofCalls_nil, hdraft]
  rfl

theorem step_of_mover (hactivity : s.activity? owner = some a) {number : Nat} {r : Reply}
    (hmover : s.mover? (.reply number r) = some owner) :
    ∃ p, s.pending? number = some p ∧ p ∈ (s.share owner).pending ∧ p.number = number ∧
      s.step (.reply number r) =
        match p.draft.resolution [r] with
        | .pending e => (s.withdraw number).send owner { p.draft with exchange := e }
        | .returned o =>
          (s.withdraw number).proceed owner (a.resume s.console p.draft.slot o)
        | .raised f => (s.withdraw number).abort owner a [f] := by
  obtain ⟨p, hp, rfl⟩ := Option.map_eq_some_iff.mp hmover
  obtain ⟨hmem, rfl⟩ := mem_of_pending? hp
  refine ⟨p, hp, List.mem_filter.mpr ⟨hmem, by simp⟩, rfl, ?_⟩
  have hkept : (s.withdraw p.number).activity? p.owner = some a := hactivity
  rw [step_reply hp, release_of_resolution hkept]
  rfl

theorem step_of_awaits (hawaits : (s.share owner).Awaits a d) {number : Nat} {r : Reply}
    (hmover : s.mover? (.reply number r) = some owner) :
    (s.withdraw number).activity? owner = some a ∧
    ((s.withdraw number).share owner).pending = [] ∧
    s.step (.reply number r) =
      match d.resolution [r] with
      | .pending e => (s.withdraw number).send owner { d with exchange := e }
      | .returned o =>
        (s.withdraw number).proceed owner (a.resume s.console d.slot o)
      | .raised f => (s.withdraw number).abort owner a [f] := by
  obtain ⟨p, hp, hmine, rfl, hstep⟩ := step_of_mover hawaits.activity hmover
  obtain ⟨q, hq, rfl⟩ := List.map_eq_singleton_iff.mp hawaits.pending
  obtain rfl : p = q := by simpa [hq] using hmine
  refine ⟨hawaits.activity, ?_, hstep⟩
  rw [pending_share_withdraw, hq]
  simp

theorem endsBy_finish (s : Session) (owner : Nat) (c : Console) (control : Option String)
    (result : Except Fault Answer) :
    s.EndsBy (s.proceed owner (Activity.finish c control result)) owner (.ofResult result)
      c.navigation := by
  cases result with
  | ok answer =>
      exact ⟨rfl, rfl, isIdle_close _ owner _, Activity.navigation_enable c control⟩
  | error why =>
      exact ⟨rfl, rfl, isIdle_close _ owner _, Activity.navigation_enable c control⟩

theorem refreshes (hpending : (s.share owner).pending = [])
    (hnormal : Path.normalize s.console.navigation.directory = s.console.navigation.directory)
    (control : Option String) (after : After) :
    let n := s.console.navigation
    let n' := { n with issued := n.issued + 1, status := .loading }
    let t := s.proceed owner (Activity.follow s.console control after n.refresh)
    let call := Call.listing n.directory
    (∃ address request, call.request s.console.settings = .ok (address, request) ∧
      s.AsksBy t owner request ⟨control, .listing ⟨n.issued + 1, n.directory⟩ after⟩
        ⟨0, .listStatus, address, .start request⟩ n') ∨
    ∃ why, call.request s.console.settings = .error why ∧
      s.EndsBy t owner (.aborted (.single (.address why))) n' := by
  intro n n' t call
  let asking : Session := { s with console := { s.console with navigation := n' } }
  let a : Activity := ⟨control, .listing ⟨n.issued + 1, n.directory⟩ after⟩
  have ht : t = asking.wait owner a [call] := by
    rw [show t = s.proceed owner (Activity.follow s.console control after n.refresh) from rfl,
      follow_refresh s.console control after hnormal]
    rfl
  cases hrequest : call.request s.console.settings with
  | ok sent =>
      obtain ⟨address, request⟩ := sent
      rw [wait_of_request asking hrequest] at ht
      have hactivity : (asking.setActivity owner a).activity? owner = some a :=
        activity?_setActivity asking owner a
      have hnone : ((asking.setActivity owner a).share owner).pending = [] := hpending
      rw [ht]
      exact .inl ⟨address, request, rfl, rfl, rfl, awaits_send hactivity hnone _, rfl⟩
  | error why =>
      rw [wait_of_fault asking hrequest] at ht
      have hends := endsBy_abort (asking.setActivity owner a) owner a [.address why]
      rw [ht]
      exact .inr ⟨why, rfl, hends.sent, hends.ended, hends.idle, hends.navigation⟩

/-! ## Whole runs -/

def deed? (s : Session) (owner : Nat) : Event → Option Deed
  | .start .. => none
  | .reply number r =>
    let t := s.step (.reply number r)
    if s.mover? (.reply number r) = some owner then
      some ⟨r, s.console.navigation, t.console.navigation, t.sent.drop s.sent.length,
        (t.ended.drop s.ended.length).map (·.2)⟩
    else none

def deeds (s : Session) (owner : Nat) : List Event → List Deed
  | [] => []
  | e :: events => (s.deed? owner e).toList ++ (s.step e).deeds owner events

theorem deed?_of_step {number : Nat} (hmover : s.mover? (.reply number r) = some owner)
    (sent : List Request) (ended : List Ending)
    (hsent : (s.step (.reply number r)).sent = s.sent ++ sent)
    (hended : (s.step (.reply number r)).ended = s.ended ++ ended.map (owner, ·)) :
    s.deed? owner (.reply number r) =
      some ⟨r, s.console.navigation, (s.step (.reply number r)).console.navigation, sent,
        ended⟩ := by
  simp [deed?, hmover, hsent, hended, Function.comp_def]

theorem deed?_of_mover {e : Event} (hmover : s.mover? e ≠ some owner) : s.deed? owner e = none := by
  cases e with
  | start mover action => rfl
  | reply number r => exact if_neg hmover

theorem deeds_of_isIdle (hnumbered : s.IsNumbered) (hidle : (s.share owner).IsIdle)
    {events : List Event} (hnew : ∀ action, .start owner action ∉ events) :
    s.deeds owner events = [] := by
  induction events generalizing s with
  | nil => rfl
  | cons e events ih =>
      have hmover : s.mover? e ≠ some owner := by
        intro hmover
        obtain ⟨number, r, rfl⟩ := mover?_eq_some hnew hmover
        exact mover?_ne_of_isIdle hidle number r hmover
      rw [deeds, deed?_of_mover hmover]
      apply ih (isNumbered_step hnumbered e)
      · rwa [share_step_of_ne hnumbered hmover]
      · exact fun action hmem => hnew action (List.mem_cons_of_mem e hmem)

theorem endings_run (hnumbered : s.IsNumbered) {events : List Event}
    (hnew : ∀ action, .start owner action ∉ events) :
    ((s.run events).share owner).endings =
      (s.share owner).endings ++ (s.deeds owner events).flatMap (·.ended) := by
  induction events generalizing s with
  | nil => simp [deeds]
  | cons e events ih =>
      have hnew' : ∀ action, .start owner action ∉ events := fun action hmem =>
        hnew action (List.mem_cons_of_mem e hmem)
      rw [run_cons, ih (isNumbered_step hnumbered e) hnew', deeds]
      by_cases hmover : s.mover? e = some owner
      · obtain ⟨number, r, rfl⟩ := mover?_eq_some hnew hmover
        obtain ⟨es, hended⟩ := ended_step hmover
        simp [deed?, hmover, share, hended, List.filter_map, Function.comp_def]
      · rw [deed?_of_mover hmover, share_step_of_ne hnumbered hmover]
        simp

end Session

end HdfsBrowser
