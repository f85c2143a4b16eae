import HdfsBrowser.Proofs.Gateway.Delivery
import HdfsBrowser.Proofs.Session.Chronicle
import HdfsBrowser.Proofs.Upload.Stage

/-!
# Browsing and changing

Browsing asks with GET, and no redirection makes anything else of that.  What an
action changes is asked for in its first step, with one PUT for each change,
and every later step of it only reads.  So the requests of a session that are
sent with PUT on their own account are those of the changes that were begun,
each of them once and in the order of the actions.
-/

namespace HdfsBrowser

/-! ## Calls -/

namespace Call

inductive IsReading : Call → Prop
  | listing (path : String) : IsReading (listing path)
  | status (path : String) : IsReading (status path)
  | blocks (path : String) : IsReading (blocks path)
  | reading (path : String) (offset : Option Int) : IsReading (reading path offset)

variable {c : Call}

theorem reading_cases (path : String) (offset : Option Int) :
    ∃ parameters : List (String × String),
      reading path offset = ⟨.openFile, path, parameters, []⟩ ∧
        (parameters = [] ∨ ∃ text, parameters = [("offset", text)]) := by
  cases offset with
  | none => exact ⟨[], rfl, .inl rfl⟩
  | some n =>
      by_cases hzero : n = 0
      · exact ⟨[], by simp [reading, hzero], .inl rfl⟩
      · exact ⟨[("offset", Numeral.text n)], by simp [reading, hzero], .inr ⟨_, rfl⟩⟩

theorem IsReading.isRead (h : c.IsReading) : c.operation.isRead = true := by
  cases h with
  | reading path offset =>
      obtain ⟨parameters, hreading, -⟩ := reading_cases path offset
      rw [hreading]
      rfl
  | _ => rfl

theorem IsReading.parameters (h : c.IsReading) :
    c.parameters = [] ∨ ∃ text, c.parameters = [("offset", text)] := by
  cases h with
  | reading path offset =>
      obtain ⟨parameters, hreading, hparameters⟩ := reading_cases path offset
      rw [hreading]
      exact hparameters
  | _ => exact .inl rfl

theorem nodup_query_of_isReading (h : c.IsReading) (settings : Settings) :
    ((c.query settings).map Prod.fst).Nodup := by
  rcases h.parameters with hnone | ⟨text, hone⟩
  · exact nodup_query (by simp [hnone]) (by simp [hnone])
  · refine nodup_query (by simp [hone]) ?_
    simp only [hone, List.map_cons, List.map_nil, List.mem_singleton]
    rintro key rfl
    decide

def readNames : List String := ["LISTSTATUS", "GETFILESTATUS", "GET_BLOCK_LOCATIONS", "OPEN"]

end Call

theorem Operation.name_mem_readNames {op : Operation} (h : op.isRead = true) :
    op.name ∈ Call.readNames := by
  cases op <;> first | decide | cases h

theorem Change.replicationRejected_ne_ok (count : Value) (c : Call) :
    replicationRejected count ≠ .ok c := by
  intro h
  obtain ⟨text, -, hcall⟩ := bind_eq_ok_iff.mp h
  cases hcall

theorem Change.isRead_of_call {ch : Change} {c : Call} (h : ch.call = .ok c) :
    c.operation.isRead = false := by
  cases ch with
  | makeDirectory parent name permission =>
      simp only [call, directoryCall] at h
      split at h
      · cases h
      · cases permission with
        | none =>
            cases h
            rfl
        | some bits =>
            obtain ⟨digits, -, hcall⟩ := bind_eq_ok_iff.mp h
            cases hcall
            rfl
  | setPermission path bits =>
      obtain ⟨digits, -, rfl⟩ := map_eq_ok_iff.mp h
      rfl
  | setOwner path owner group =>
      simp only [call, ownerCall, bind_eq_ok_iff] at h
      obtain ⟨owner, -, group, -, hcall⟩ := h
      split at hcall
      · cases hcall
      · cases hcall
        rfl
  | setReplication path count =>
      simp only [call, replicationCall] at h
      split at h
      · split at h
        · exact absurd h (replicationRejected_ne_ok count c)
        · obtain ⟨text, -, rfl⟩ := map_eq_ok_iff.mp h
          rfl
      · split at h
        · exact absurd h (replicationRejected_ne_ok count c)
        · cases h

/-! ## What actions ask for -/

namespace Action

/-- The calls with which an action changes something: one for a change that is accepted, one for
each file of an upload. -/
def changes : Action → List Call
  | .change ch _ => ch.call.toOption.toList
  | .upload directory files _ => Upload.creations directory files
  | .call c => if c.operation.isRead then [] else [c]
  | _ => []

def isBrowsing : Action → Bool
  | .change .. | .upload .. | .call _ => false
  | _ => true

/-- The calls with which an action only reads. -/
def Asks (action : Action) (c : Call) : Prop :=
  c.IsReading ∨ (action = .call c ∧ c.operation.isRead = true)

variable {action : Action} {c : Call}

theorem changes_of_isBrowsing (h : action.isBrowsing = true) : action.changes = [] := by
  cases action <;> first | rfl | cases h

theorem Asks.isRead (h : action.Asks c) : c.operation.isRead = true := by
  rcases h with hreading | ⟨-, hread⟩
  · exact hreading.isRead
  · exact hread

theorem isRead_of_changes (h : c ∈ action.changes) : c.operation.isRead = false := by
  cases action with
  | change ch control =>
      simp only [changes, Option.mem_toList] at h
      cases hcall : ch.call with
      | error f => simp [hcall, Except.toOption] at h
      | ok call =>
          obtain rfl : call = c := by simpa [hcall, Except.toOption] using h
          exact Change.isRead_of_call hcall
  | upload directory files control =>
      rw [Upload.operation_creations directory files c h]
      rfl
  | call d =>
      cases hread : d.operation.isRead with
      | true => simp [changes, hread] at h
      | false =>
          obtain rfl : c = d := by simpa [changes, hread] using h
          exact hread
  | _ => exact absurd h List.not_mem_nil

end Action

def Progress.calls : Progress → List Call
  | .waiting _ calls => calls
  | _ => []

theorem Progress.drafts_eq [Client] (settings : Settings) (p : Progress) :
    p.drafts settings = Draft.sort (Draft.ofCalls settings 0 p.calls).1 := by
  cases p with
  | waiting a calls => rfl
  | finished answer | aborted why =>
      rw [show Progress.calls _ = [] from rfl, Draft.ofCalls_nil]
      rfl

namespace Activity

def Reads (r : Console × Progress) : Prop := ∀ c ∈ r.2.calls, c.IsReading

theorem reads_finish (c : Console) (control : Option String) (r : Except Fault Answer) :
    Reads (finish c control r) := by
  cases r <;> exact List.forall_mem_nil _

theorem reads_complain (c : Console) (control : Option String) (message : Value)
    (answer : Answer) : Reads (complain c control message answer) :=
  reads_finish _ control _

theorem reads_display (c : Console) (control : Option String) (page : Page) (answer : Answer) :
    Reads (display c control page answer) :=
  reads_finish _ control _

theorem reads_waiting {call : Call} (h : call.IsReading) (c : Console) (a : Activity) :
    Reads (c, .waiting a [call]) := by
  intro other hother
  obtain rfl := List.mem_singleton.mp hother
  exact h

theorem reads_follow (c : Console) (control : Option String) (after : After)
    (m : Navigation × Move) : Reads (follow c control after m) := by
  obtain ⟨n, move⟩ := m
  cases move with
  | stay moved => exact reads_finish _ control _
  | fetch f => exact reads_waiting (.listing f.target) _ _

theorem reads_preview (c : Console) (path : String) (length : Int) :
    Reads (preview c path length) := by
  unfold preview
  dsimp only
  split
  · exact reads_waiting (.reading _ _) c _
  · exact reads_finish c none _

theorem reads_conclude (c : Console) (control : Option String) (after : After) (moved : Bool) :
    Reads (conclude c control after moved) := by
  unfold conclude
  split <;> exact reads_finish _ control _

theorem reads_uploaded (c : Console) (control : Option String) (outcomes : List Outcome)
    (failure : Option Value) : Reads (uploaded c control outcomes failure) := by
  unfold uploaded
  split
  · exact reads_follow c control _ _
  · exact reads_conclude c control _ false

theorem reads_resume [Client] (c : Console) (a : Activity) (slot : Nat) (o : Outcome) :
    Reads (resume c a slot o) := by
  obtain ⟨control, phase⟩ := a
  cases phase with
  | listing f after =>
      simp only [resume, listed]
      split
      · exact reads_conclude _ control after _
      · exact reads_finish _ control _
  | locating path =>
      cases o with
      | ok located => exact reads_waiting (.status path) c _
      | error why => exact reads_complain c control _ _
  | describing path located =>
      simp only [resume, described]
      split
      · exact reads_finish c control _
      · split
        · exact reads_display c control _ _
        · split
          · exact reads_complain c control _ _
          · exact reads_finish c control _
  | measuring path =>
      simp only [resume, measured]
      split
      · exact reads_complain c control _ _
      · split
        · exact reads_preview c path _
        · exact reads_finish c control _
  | reading =>
      cases o with
      | ok content => exact reads_display c control _ _
      | error why => exact reads_complain c control _ _
  | changing =>
      cases o with
      | ok v => exact reads_follow c control _ _
      | error why => exact reads_complain c control _ _
  | calling => exact reads_finish c control _
  | uploading outcomes failure =>
      simp only [resume, gather]
      split
      · exact reads_uploaded c control _ _
      · exact List.forall_mem_nil _

theorem calls_begin (c : Console) (action : Action) :
    (begin c action).2.calls = action.changes ∨
      (action.changes = [] ∧ ∀ call ∈ (begin c action).2.calls, action.Asks call) := by
  have hreads {r : Console × Progress} (h : Reads r) : ∀ call ∈ r.2.calls, action.Asks call :=
    fun call hcall => .inl (h call hcall)
  cases action with
  | openEntry path kind =>
      refine .inr ⟨rfl, hreads ?_⟩
      simp only [begin, openEntry]
      split
      · exact reads_follow c none _ _
      · split
        · exact reads_waiting (.blocks _) _ _
        · exact reads_finish c none _
  | showBlock sheet index =>
      refine .inr ⟨rfl, hreads ?_⟩
      simp only [begin, showBlock]
      split
      · exact reads_display c none _ _
      · exact reads_finish c none _
  | change ch control =>
      left
      simp only [begin, change, Action.changes]
      cases ch.call with
      | ok call => rfl
      | error f => cases f <;> rfl
  | upload directory files control =>
      left
      cases files with
      | nil => rfl
      | cons f files => rfl
  | call call =>
      cases hread : call.operation.isRead with
      | false => exact .inl (by simp [begin, Action.changes, hread, Progress.calls])
      | true =>
          refine .inr ⟨by simp [Action.changes, hread], fun other hother => ?_⟩
          obtain rfl := List.mem_singleton.mp hother
          exact .inr ⟨rfl, hread⟩
  | preview path length => exact .inr ⟨rfl, hreads (reads_preview c path length)⟩
  | tail path => exact .inr ⟨rfl, hreads (reads_waiting (.status _) c _)⟩
  | setFragment fragment => exact .inr ⟨rfl, hreads (reads_finish _ none _)⟩
  | select path name => exact .inr ⟨rfl, hreads (reads_finish _ none _)⟩
  | showError message => exact .inr ⟨rfl, hreads (reads_finish _ none _)⟩
  | clearError => exact .inr ⟨rfl, hreads (reads_finish _ none _)⟩
  | _ => exact .inr ⟨rfl, hreads (reads_follow c none _ _)⟩

end Activity

/-! ## Requests that are sent with PUT on their own account -/

def Draft.IsFirst (d : Draft) : Prop := d.exchange.followed = 0

instance (d : Draft) : Decidable d.IsFirst := inferInstanceAs (Decidable (_ = _))

def Letter.posts (l : Letter) : Bool := l.draft.IsFirst ∧ l.draft.request.method = .put

def Chronicle.posted (c : Chronicle) : List Letter := c.letters.filter (·.posts)

theorem Letter.posts_of_get {l : Letter} (h : l.draft.request.method = .get) : l.posts = false := by
  simp [posts, h]

theorem Letter.posts_of_later {l : Letter} (h : ¬ l.draft.IsFirst) : l.posts = false := by
  simp [posts, h]

/-! ## The drafts of calls -/

variable [Client]

namespace Draft

variable {settings : Settings} {calls : List Call} {d : Draft}

theorem mem_ofCalls_iff :
    d ∈ (ofCalls settings 0 calls).1 ↔
      ∃ c, calls[d.slot]? = some c ∧ ofCall settings d.slot c = .ok d := by
  have hdrafts : (ofCalls settings 0 calls).1 = (leftovers settings calls []).reduceOption :=
    fst_ofCalls settings 0 calls
  rw [hdrafts]
  constructor
  · intro h
    obtain ⟨c, hc, hleft⟩ := exists_of_mem_leftovers h
    refine ⟨c, hc, ?_⟩
    rw [Script.given_nil, Call.leftover_nil] at hleft
    cases hdraft : ofCall settings d.slot c with
    | error why => simp [hdraft, Except.toOption] at hleft
    | ok d' =>
        obtain rfl : d' = d := by simpa [hdraft, Except.toOption] using hleft
        rfl
  · rintro ⟨c, hc, hdraft⟩
    refine List.reduceOption_mem_iff.mpr (List.mem_of_getElem? (i := d.slot) ?_)
    rw [getElem?_leftovers, hc, Option.map_some, Script.given_nil, Call.leftover_nil, hdraft]
    rfl

theorem slots_ofCalls (settings : Settings) (slot : Nat) (calls : List Call) :
    ((ofCalls settings slot calls).1.map (·.slot)).Sublist (List.range' slot calls.length) := by
  induction calls generalizing slot with
  | nil => rw [ofCalls_nil]; exact .slnil
  | cons c calls ih =>
      rw [ofCalls_cons, List.length_cons, List.range'_succ]
      cases hdraft : ofCall settings slot c with
      | ok d =>
          obtain ⟨address, request, -, rfl⟩ := Call.exists_of_ofCall hdraft
          exact (ih (slot + 1)).cons_cons _
      | error why => exact (ih (slot + 1)).cons _

theorem nodup_slots (settings : Settings) (calls : List Call) :
    ((sort (ofCalls settings 0 calls).1).map (·.slot)).Nodup :=
  ((sort_perm _).map _).nodup_iff.mpr
    ((slots_ofCalls settings 0 calls).nodup List.nodup_range')

/-- The request asks for an action, or it stands for one of its changes, be it the first request
of the call or one that redirections led to. -/
inductive IsFor (settings : Settings) (action : Action) (d : Draft) : Prop
  | asks {c : Call} (hasks : action.Asks c) (hop : d.operation = c.operation)
      (hget : d.request.method = .get)
      (hfirst : d.IsFirst → c.opening? settings = some d.request)
  | changes {c : Call} (hcall : action.changes[d.slot]? = some c) (hop : d.operation = c.operation)

variable {action : Action} {c : Call}

theorem opening_of_ofCall {i : Nat} (h : ofCall settings i c = .ok d) :
    d.slot = i ∧ d.IsFirst ∧ c.opening? settings = some d.request ∧
      d.request.method = if c.operation.isRead then .get else .put := by
  obtain ⟨address, request, hrequest, rfl⟩ := Call.exists_of_ofCall h
  refine ⟨rfl, rfl, ?_, (Call.shape_of_request hrequest).1⟩
  simp [Call.opening?, hrequest, Except.toOption, Draft.request, Exchange.start]

theorem operation_of_ofCall {i : Nat} (h : ofCall settings i c = .ok d) :
    d.operation = c.operation := by
  obtain ⟨address, request, -, rfl⟩ := Call.exists_of_ofCall h
  rfl

theorem get_of_ofCall (hread : c.operation.isRead = true) {i : Nat}
    (h : ofCall settings i c = .ok d) : d.request.method = .get := by
  obtain ⟨-, -, -, hmethod⟩ := opening_of_ofCall h
  simpa [hread] using hmethod

theorem isFor_of_asks (hasks : action.Asks c) {i : Nat} (h : ofCall settings i c = .ok d) :
    d.IsFor settings action :=
  .asks hasks (operation_of_ofCall h) (get_of_ofCall hasks.isRead h) fun _ =>
    (opening_of_ofCall h).2.2.1

theorem isFor_of_pending (h : d.IsFor settings action) {r : Reply} {e : Exchange}
    (hpending : d.resolution [r] = .pending e) :
    ¬ { d with exchange := e }.IsFirst ∧ { d with exchange := e }.IsFor settings action := by
  obtain ⟨next, hreceive, hnext⟩ :=
    Exchange.exists_of_afterAll_cons (resolution_eq_pending_iff.mp hpending)
  obtain rfl : next = e := by simpa [Exchange.afterAll] using hnext
  have hlater : ¬ { d with exchange := next }.IsFirst := by
    simp [IsFirst, (Exchange.followed_of_receive hreceive).1]
  refine ⟨hlater, ?_⟩
  cases h with
  | asks hasks hop hget hfirst =>
      obtain ⟨response, -, hmethod, -⟩ := Exchange.request_of_receive hreceive
      have hstays : next.request.method = .get := by
        rw [hmethod, Exchange.nextMethod, show d.exchange.request.method = .get from hget, ite_self]
      exact .asks hasks hop hstays fun hfirst => absurd hfirst hlater
  | changes hcall hop => exact .changes hcall hop

end Draft

/-! ## The first requests of changes -/

namespace Letter

/-- The first requests of the changes of an action in some place. -/
def postings (settings : Settings) (origin : Nat) (action : Action) : List Letter :=
  (Draft.sort (Draft.ofCalls settings 0 action.changes).1).map (Letter.mk origin)

def postingsOf (settings : Settings) (begun : List Action) : List Letter :=
  (begun.mapIdx (postings settings)).flatten

variable {settings : Settings} {begun : List Action} {l : Letter}

theorem postingsOf_concat (settings : Settings) (begun : List Action) (action : Action) :
    postingsOf settings (begun ++ [action]) =
      postingsOf settings begun ++ postings settings begun.length action := by
  simp [postingsOf, List.mapIdx_append]

theorem mem_postings_iff {origin : Nat} {action : Action} :
    l ∈ postings settings origin action ↔ l.origin = origin ∧ ∃ c,
      action.changes[l.draft.slot]? = some c ∧
        Draft.ofCall settings l.draft.slot c = .ok l.draft := by
  obtain ⟨place, d⟩ := l
  simp only [postings, List.mem_map, (Draft.sort_perm _).mem_iff, Draft.mem_ofCalls_iff,
    Letter.mk.injEq]
  constructor
  · rintro ⟨d', ⟨c, hc, hdraft⟩, rfl, rfl⟩
    exact ⟨rfl, c, hc, hdraft⟩
  · rintro ⟨rfl, c, hc, hdraft⟩
    exact ⟨d, ⟨c, hc, hdraft⟩, rfl, rfl⟩

theorem requests_postings_perm (settings : Settings) (origin : Nat) (action : Action) :
    ((postings settings origin action).map (·.draft.request)).Perm
      (action.changes.filterMap (Call.opening? settings)) := by
  rw [← Draft.requests_ofCalls settings 0, postings, List.map_map]
  exact (Draft.sort_perm _).map (·.request)

theorem mem_postingsOf_iff :
    l ∈ postingsOf settings begun ↔ ∃ action c, begun[l.origin]? = some action ∧
      action.changes[l.draft.slot]? = some c ∧
        Draft.ofCall settings l.draft.slot c = .ok l.draft := by
  simp only [postingsOf, List.mem_flatten, List.mem_mapIdx]
  constructor
  · rintro ⟨_, ⟨i, hi, rfl⟩, hmem⟩
    obtain ⟨rfl, c, hc, hdraft⟩ := mem_postings_iff.mp hmem
    exact ⟨begun[l.origin], c, List.getElem?_eq_getElem hi, hc, hdraft⟩
  · rintro ⟨action, c, haction, hc, hdraft⟩
    obtain ⟨hi, rfl⟩ := List.getElem?_eq_some_iff.mp haction
    exact ⟨_, ⟨l.origin, hi, rfl⟩, mem_postings_iff.mpr ⟨rfl, c, hc, hdraft⟩⟩

theorem nodup_postingsOf (settings : Settings) (begun : List Action) :
    ((postingsOf settings begun).map fun l => (l.origin, l.draft.slot)).Nodup := by
  induction begun using List.reverseRec with
  | nil => exact .nil
  | append_singleton begun action ih =>
      rw [postingsOf_concat, List.map_append]
      refine List.nodup_append.mpr ⟨ih, ?_, ?_⟩
      · have hslots := Draft.nodup_slots settings action.changes
        rw [postings, List.map_map]
        refine List.Nodup.of_map Prod.snd ?_
        simpa [Function.comp_def] using hslots
      · rintro _ hold _ hnew rfl
        obtain ⟨l, hl, rfl⟩ := List.mem_map.mp hold
        obtain ⟨l', hl', hsame⟩ := List.mem_map.mp hnew
        obtain ⟨earlier, -, hearlier, -⟩ := mem_postingsOf_iff.mp hl
        obtain ⟨hplace, -⟩ := mem_postings_iff.mp hl'
        obtain ⟨hlt, -⟩ := List.getElem?_eq_some_iff.mp hearlier
        have hsame : l'.origin = l.origin := congrArg Prod.fst hsame
        omega

theorem filter_postingsOf {i : Nat} {action : Action} (h : begun[i]? = some action) :
    (postingsOf settings begun).filter (·.origin = i) = postings settings i action := by
  induction begun using List.reverseRec with
  | nil => cases h
  | append_singleton begun last ih =>
      rw [postingsOf_concat, List.filter_append]
      obtain ⟨hi, haction⟩ := List.getElem?_eq_some_iff.mp h
      rcases Nat.lt_or_ge i begun.length with hold | hnew
      · have hlast : (postings settings begun.length last).filter (·.origin = i) = [] := by
          refine List.filter_eq_nil_iff.mpr fun l hl => ?_
          simp [(mem_postings_iff.mp hl).1, hold.ne']
        rw [hlast, List.append_nil]
        exact ih (List.getElem?_append_left hold ▸ h)
      · obtain rfl : i = begun.length := by
          simp only [List.length_append, List.length_singleton] at hi
          omega
        obtain rfl : last = action := by simpa using haction
        have hbefore : (postingsOf settings begun).filter (·.origin = begun.length) = [] := by
          refine List.filter_eq_nil_iff.mpr fun l hl => ?_
          obtain ⟨earlier, -, hearlier, -⟩ := mem_postingsOf_iff.mp hl
          obtain ⟨hlt, -⟩ := List.getElem?_eq_some_iff.mp hearlier
          simp [hlt.ne]
        rw [hbefore, List.nil_append]
        refine List.filter_eq_self.mpr fun l hl => ?_
        simp [(mem_postings_iff.mp hl).1]

theorem posts_of_mem_postings {origin : Nat} {action : Action}
    (h : l ∈ postings settings origin action) : l.posts = true := by
  obtain ⟨-, c, hc, hdraft⟩ := mem_postings_iff.mp h
  obtain ⟨-, hfirst, -, hmethod⟩ := Draft.opening_of_ofCall hdraft
  rw [Action.isRead_of_changes (List.mem_of_getElem? hc)] at hmethod
  exact decide_eq_true ⟨hfirst, hmethod⟩

end Letter

/-! ## Sessions -/

namespace Chronicle

open Session (Event)

/-- Every request asks for its action or is that of a change of it, and those that are sent with
PUT on their own account are those of the changes. -/
structure IsAccounted (settings : Settings) (c : Chronicle) : Prop where
  console : c.session.console.settings = settings
  letters : ∀ l ∈ c.letters, ∃ action, c.begun[l.origin]? = some action ∧
    l.draft.IsFor settings action
  posted : c.posted = Letter.postingsOf settings c.begun

theorem isAccounted_opening (settings : Settings) (fragment : String) :
    (opening settings fragment).IsAccounted settings :=
  ⟨rfl, List.forall_mem_nil _, rfl⟩

variable {settings : Settings} {c : Chronicle}

theorem drafts_begin (console : Console) (action : Action) (origin : Nat) :
    let ds := (Activity.begin console action).2.drafts console.settings
    (∀ d ∈ ds, d.IsFor console.settings action) ∧
      (ds.map (Letter.mk origin)).filter (·.posts) =
        Letter.postings console.settings origin action := by
  intro ds
  have hds : ds = Draft.sort (Draft.ofCalls console.settings 0
      (Activity.begin console action).2.calls).1 := Progress.drafts_eq _ _
  rcases Activity.calls_begin console action with hchanges | ⟨hnone, hasks⟩
  · rw [hchanges] at hds
    have hpostings :
        ds.map (Letter.mk origin) = Letter.postings console.settings origin action := by
      rw [hds]
      rfl
    refine ⟨fun d hd => ?_, ?_⟩
    · rw [hds, (Draft.sort_perm _).mem_iff, Draft.mem_ofCalls_iff] at hd
      obtain ⟨c, hc, hdraft⟩ := hd
      exact .changes hc (Draft.operation_of_ofCall hdraft)
    · rw [hpostings]
      exact List.filter_eq_self.mpr fun l => Letter.posts_of_mem_postings
  · have hfor : ∀ d ∈ ds, ∃ c, action.Asks c ∧
        Draft.ofCall console.settings d.slot c = .ok d := by
      intro d hd
      rw [hds, (Draft.sort_perm _).mem_iff, Draft.mem_ofCalls_iff] at hd
      obtain ⟨c, hc, hdraft⟩ := hd
      exact ⟨c, hasks c (List.mem_of_getElem? hc), hdraft⟩
    refine ⟨fun d hd => ?_, ?_⟩
    · obtain ⟨c, hask, hdraft⟩ := hfor d hd
      exact Draft.isFor_of_asks hask hdraft
    · have hempty : Letter.postings console.settings origin action = [] := by
        rw [Letter.postings, hnone, Draft.ofCalls_nil]
        rfl
      rw [hempty, List.filter_eq_nil_iff]
      intro l hl
      obtain ⟨d, hd, rfl⟩ := List.mem_map.mp hl
      obtain ⟨c, hask, hdraft⟩ := hfor d hd
      rw [Letter.posts_of_get (Draft.get_of_ofCall hask.isRead hdraft)]
      exact Bool.false_ne_true

theorem drafts_reply {s : Session} {number : Nat} {p : Pending} {action : Action}
    (hp : s.pending? number = some p) (hfor : p.draft.IsFor s.console.settings action) (r : Reply)
    (origin : Nat) :
    ∀ d ∈ s.drafts (.reply number r), d.IsFor s.console.settings action ∧
      (Letter.mk origin d).posts = false := by
  intro d hd
  cases hactivity : s.activity? p.owner with
  | none => simp [Session.drafts, hp, hactivity] at hd
  | some a =>
      rw [Session.drafts_reply hp hactivity] at hd
      cases hresolution : p.draft.resolution [r] with
      | pending e =>
          rw [hresolution] at hd
          obtain rfl := List.mem_singleton.mp hd
          obtain ⟨hlater, hnext⟩ := Draft.isFor_of_pending hfor hresolution
          exact ⟨hnext, Letter.posts_of_later hlater⟩
      | returned o =>
          rw [hresolution] at hd
          simp only [Progress.drafts_eq, (Draft.sort_perm _).mem_iff, Draft.mem_ofCalls_iff] at hd
          obtain ⟨c, hc, hdraft⟩ := hd
          have hreading : c.IsReading :=
            Activity.reads_resume s.console a p.draft.slot o c (List.mem_of_getElem? hc)
          exact ⟨Draft.isFor_of_asks (.inl hreading) hdraft,
            Letter.posts_of_get (Draft.get_of_ofCall hreading.isRead hdraft)⟩
      | raised f => simp [hresolution] at hd

theorem isAccounted_step (hfaithful : c.IsFaithful) (h : c.IsAccounted settings) (e : Event) :
    (c.step e).IsAccounted settings := by
  have hsettings : (c.session.step e).console.settings = settings :=
    (Session.settings_step c.session e).trans h.console
  rcases c.step_cases e with ⟨hstep, -⟩ | ⟨owner, action, rfl, hidle, -, hstep⟩ |
    ⟨number, p, r, rfl, hp, -, hstep⟩
  · rw [hstep]
    exact ⟨hsettings, h.letters, h.posted⟩
  · have hdrafts : c.session.drafts (.start owner action) =
        (Activity.begin c.session.console action).2.drafts c.session.console.settings := by
      simp [Session.drafts, hidle]
    obtain ⟨hfor, hposts⟩ := drafts_begin c.session.console action c.begun.length
    rw [← hdrafts, h.console] at hfor hposts
    rw [hstep]
    refine ⟨hsettings, fun l hl => ?_, ?_⟩
    · rcases List.mem_append.mp hl with hold | hnew
      · obtain ⟨earlier, hearlier, hletter⟩ := h.letters l hold
        exact ⟨earlier, List.getElem?_append_left (hfaithful.origin_lt l hold) ▸ hearlier, hletter⟩
      · obtain ⟨d, hd, rfl⟩ := List.mem_map.mp hnew
        exact ⟨action, List.getElem?_concat_length, hfor d hd⟩
    · rw [Letter.postingsOf_concat, ← h.posted, ← hposts]
      exact List.filter_append ..
  · obtain ⟨action, haction, hletter⟩ :=
      h.letters _ (hfaithful.pending p (Session.mem_of_pending? hp).1)
    have hnew := drafts_reply hp (h.console ▸ hletter) r (c.latest p.owner)
    rw [h.console] at hnew
    rw [hstep]
    refine ⟨hsettings, fun l hl => ?_, ?_⟩
    · rcases List.mem_append.mp hl with hold | hsent
      · exact h.letters l hold
      · obtain ⟨d, hd, rfl⟩ := List.mem_map.mp hsent
        exact ⟨action, haction, (hnew d hd).1⟩
    · have hnone : ((c.session.drafts (.reply number r)).map
          (Letter.mk (c.latest p.owner))).filter (·.posts) = [] := by
        rw [List.filter_eq_nil_iff]
        intro l hl
        obtain ⟨d, hd, rfl⟩ := List.mem_map.mp hl
        rw [(hnew d hd).2]
        exact Bool.false_ne_true
      rw [← h.posted]
      exact (List.filter_append ..).trans (by rw [hnone, List.append_nil]; rfl)

theorem isAccounted_run (hfaithful : c.IsFaithful) (h : c.IsAccounted settings)
    (events : List Event) : (c.run events).IsAccounted settings := by
  induction events generalizing c with
  | nil => exact h
  | cons e events ih => exact ih (isFaithful_step hfaithful e) (isAccounted_step hfaithful h e)

theorem begun_prefix_run (c : Chronicle) (events : List Event) :
    c.begun <+: (c.run events).begun := by
  induction events generalizing c with
  | nil => exact List.prefix_rfl
  | cons e events ih =>
      refine List.IsPrefix.trans ?_ (ih (c.step e))
      rcases c.step_cases e with ⟨hstep, -⟩ | ⟨owner, action, rfl, -, -, hstep⟩ |
        ⟨number, p, r, rfl, -, -, hstep⟩
      · rw [hstep]
      · rw [hstep]
        exact List.prefix_append _ _
      · rw [hstep]

theorem posted_of_start (fragment : String) (before after : List Event) {owner : Nat}
    (action : Action)
    (hidle : ((Session.opening settings fragment).run before).activity? owner = none) :
    let c := (opening settings fragment).run before
    (c.run (.start owner action :: after)).posted.filter (·.origin = c.begun.length) =
      Letter.postings settings c.begun.length action := by
  intro c
  have hsame : c.session.activity? owner = none := by
    rw [session_run]
    exact hidle
  have haccounted : (c.run (.start owner action :: after)).IsAccounted settings := by
    have hrun : c.run (.start owner action :: after) =
        (opening settings fragment).run (before ++ .start owner action :: after) :=
      List.foldl_append.symm
    rw [hrun]
    exact isAccounted_run (isFaithful_opening settings fragment)
      (isAccounted_opening settings fragment) _
  have hbegun : (c.run (.start owner action :: after)).begun[c.begun.length]? = some action := by
    obtain ⟨later, hlater⟩ := begun_prefix_run (c.step (.start owner action)) after
    have hstep : (c.step (.start owner action)).begun = c.begun ++ [action] := by
      simp [step, enroll, hsame]
    rw [run_cons, ← hlater, hstep]
    simp
  rw [haccounted.posted, Letter.filter_postingsOf hbegun]

theorem query_of_isReading {call : Call} (hreading : call.IsReading) {request : Request}
    (h : call.opening? settings = some request) :
    ∃ q pairs, request.address.query = some q ∧
      Form.decode q = ("op", call.operation.name) :: pairs ∧
      call.operation.name ∈ Call.readNames ∧ "op" ∉ pairs.map Prod.fst := by
  have hnodup := Call.nodup_query_of_isReading hreading settings
  cases hrequest : call.request settings with
  | error why => simp [Call.opening?, hrequest, Except.toOption] at h
  | ok sent =>
      obtain ⟨address, sent⟩ := sent
      obtain rfl : sent = request := by simpa [Call.opening?, hrequest, Except.toOption] using h
      obtain ⟨q, hq, hdecode⟩ := Call.decode_query_of_request hnodup hrequest
      exact ⟨q, _, hq, hdecode, Operation.name_mem_readNames hreading.isRead,
        (List.nodup_cons.mp hnodup).1⟩

/-- In every session, whatever is begun, in whatever order the replies come, and wherever they
redirect: a request for an operation that reads, be it of an action that browses or of one that
changes something, is a GET, and the first request of its call asks for that operation.  All
requests of an action that browses are of this kind, and the others stand for a change of their
action.  The requests that are sent with PUT on their own account belong to different changes, each
to one that was accepted, and a change without such a request is one whose address raises a
fault. -/
theorem browsing_never_changes (settings : Settings) (fragment : String)
    (events : List Event) :
    let c := (opening settings fragment).run events
    (c.session = (Session.opening settings fragment).run events ∧
      c.session.sent = c.letters.map (·.draft.request)) ∧
    (∀ l ∈ c.letters, ∃ action, c.begun[l.origin]? = some action ∧
      (action.isBrowsing = true → l.draft.operation.isRead = true) ∧
      (l.draft.operation.isRead = true → l.draft.request.method = .get ∧
        ((∀ call, action ≠ .call call) → l.draft.IsFirst →
          ∃ q pairs, l.draft.request.address.query = some q ∧
            Form.decode q = ("op", l.draft.operation.name) :: pairs ∧
            l.draft.operation.name ∈ Call.readNames ∧ "op" ∉ pairs.map Prod.fst)) ∧
      (l.draft.operation.isRead = false → ∃ call, action.changes[l.draft.slot]? = some call ∧
        l.draft.operation = call.operation)) ∧
    (c.posted.map fun l => (l.origin, l.draft.slot)).Nodup ∧
    (∀ l ∈ c.posted, ∃ action call, c.begun[l.origin]? = some action ∧
      action.changes[l.draft.slot]? = some call ∧
      call.opening? settings = some l.draft.request) ∧
    ∀ (i slot : Nat) (action : Action) (call : Call), c.begun[i]? = some action →
      action.changes[slot]? = some call →
      (∃ l ∈ c.posted, l.origin = i ∧ l.draft.slot = slot) ∨
        ∃ f, ∀ replies, call.resolution settings replies = .raised f := by
  intro c
  have hfaithful : c.IsFaithful := isFaithful_run (isFaithful_opening settings fragment) events
  have haccounted : c.IsAccounted settings :=
    isAccounted_run (isFaithful_opening settings fragment)
      (isAccounted_opening settings fragment) events
  refine ⟨⟨session_run _ events, hfaithful.sent⟩, fun l hl => ?_, ?_, fun l hl => ?_, ?_⟩
  · obtain ⟨action, haction, hfor⟩ := haccounted.letters l hl
    refine ⟨action, haction, ?_⟩
    cases hfor with
    | asks hasks hop hget hfirst =>
        have hread : l.draft.operation.isRead = true := hop ▸ hasks.isRead
        refine ⟨fun _ => hread, fun _ => ⟨hget, fun hcooked h => ?_⟩, by simp [hread]⟩
        rcases hasks with hreading | ⟨hraw, -⟩
        · exact hop ▸ query_of_isReading hreading (hfirst h)
        · exact absurd hraw (hcooked _)
    | changes hcall hop =>
        have hchange : l.draft.operation.isRead = false :=
          hop ▸ Action.isRead_of_changes (List.mem_of_getElem? hcall)
        refine ⟨fun hbrowsing => ?_, by simp [hchange], fun _ => ⟨_, hcall, hop⟩⟩
        simp [Action.changes_of_isBrowsing hbrowsing] at hcall
  · rw [haccounted.posted]
    exact Letter.nodup_postingsOf settings c.begun
  · rw [haccounted.posted] at hl
    obtain ⟨action, call, haction, hcall, hdraft⟩ := Letter.mem_postingsOf_iff.mp hl
    exact ⟨action, call, haction, hcall, (Draft.opening_of_ofCall hdraft).2.2.1⟩
  · intro i slot action call haction hcall
    cases hdraft : Draft.ofCall settings slot call with
    | ok d =>
        obtain ⟨rfl, -⟩ := Draft.opening_of_ofCall hdraft
        refine .inl ⟨⟨i, d⟩, ?_, rfl, rfl⟩
        rw [haccounted.posted]
        exact Letter.mem_postingsOf_iff.mpr ⟨action, call, haction, hcall, hdraft⟩
    | error why =>
        exact .inr ⟨.address why, Call.resolution_of_refused hdraft⟩

end Chronicle

end HdfsBrowser
