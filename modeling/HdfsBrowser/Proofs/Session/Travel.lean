import HdfsBrowser.Proofs.Session.Overtaking
import HdfsBrowser.Session.Basic
import Mathlib.Data.List.Pairwise

/-!
# The journey of a session

Whatever the activities of a session do, its navigation makes a journey: each
step of an activity is a few events of the journey, and the listings on their
way are those that activities wait for.  So what holds after every journey
holds in every session.
-/

namespace HdfsBrowser

/-! ## Journeys from one place to another -/

namespace Journey

def LeadsTo (j k : Journey) : Prop := ∃ events, j.run events = k

theorem LeadsTo.refl (j : Journey) : LeadsTo j j := ⟨[], rfl⟩

theorem LeadsTo.trans {i j k : Journey} (hij : LeadsTo i j) (hjk : LeadsTo j k) :
    LeadsTo i k := by
  obtain ⟨before, rfl⟩ := hij
  obtain ⟨after, rfl⟩ := hjk
  exact ⟨before ++ after, List.foldl_append⟩

theorem LeadsTo.step {j k : Journey} (h : LeadsTo j k) (e : Event) : LeadsTo j (k.step e) :=
  h.trans ⟨[e], rfl⟩

theorem leadsTo_screen (n : Navigation) (ahead : List Fetch) (screen : Screen) :
    LeadsTo ⟨n, ahead⟩ ⟨{ n with screen }, ahead⟩ :=
  (LeadsTo.refl _).step (.setScreen screen)

end Journey

/-! ## Steps of activities -/

def Phase.fetch? : Phase → Option Fetch
  | .listing f _ => some f
  | _ => none

def Progress.fetches : Progress → List Fetch
  | .waiting a _ => a.phase.fetch?.toList
  | _ => []

namespace Activity

open Journey

/-- A step leads the journey on from some listings, to which it may add one. -/
def Travels (n : Navigation) (ahead : List Fetch) (r : Console × Progress) : Prop :=
  LeadsTo ⟨n, ahead⟩ ⟨r.1.navigation, ahead ++ r.2.fetches⟩

theorem navigation_enable (c : Console) (control : Option String) :
    (c.enable control).navigation = c.navigation := by
  cases control <;> rfl

theorem navigation_disable (c : Console) (control : Option String) :
    (c.disable control).navigation = c.navigation := by
  cases control <;> rfl

theorem navigation_register (c : Console) (control : Option String) :
    (c.register control).navigation = c.navigation := by
  cases control with
  | none => rfl
  | some name =>
      unfold Console.register
      dsimp only
      split <;> rfl

theorem travels_of_fetches {n : Navigation} {ahead : List Fetch} {r : Console × Progress}
    (hnone : r.2.fetches = []) (h : LeadsTo ⟨n, ahead⟩ ⟨r.1.navigation, ahead⟩) :
    Travels n ahead r := by
  unfold Travels
  rwa [hnone, List.append_nil]

theorem travels_finish {n : Navigation} {ahead : List Fetch} {c : Console}
    (h : LeadsTo ⟨n, ahead⟩ ⟨c.navigation, ahead⟩) (control : Option String)
    (r : Except Fault Answer) : Travels n ahead (finish c control r) := by
  have hnavigation : (finish c control r).1.navigation = c.navigation :=
    navigation_enable c control
  refine travels_of_fetches ?_ (hnavigation ▸ h)
  cases r <;> rfl

theorem travels_screen {n : Navigation} {ahead : List Fetch} {c : Console}
    (h : LeadsTo ⟨n, ahead⟩ ⟨c.navigation, ahead⟩) (screen : Screen) (control : Option String)
    (r : Except Fault Answer) : Travels n ahead (finish (c.setScreen screen) control r) := by
  have hscreen : LeadsTo ⟨n, ahead⟩ ⟨(c.setScreen screen).navigation, ahead⟩ :=
    h.trans (leadsTo_screen c.navigation ahead screen)
  exact travels_finish hscreen control r

theorem travels_waiting {n : Navigation} {c : Console} (hsame : c.navigation = n)
    (ahead : List Fetch) {a : Activity} (h : a.phase.fetch? = none) (calls : List Call) :
    Travels n ahead (c, .waiting a calls) := by
  subst hsame
  exact travels_of_fetches (by simp [Progress.fetches, h]) (LeadsTo.refl _)

theorem travels_follow {c : Console} {ahead : List Fetch} {m : Navigation × Move} {e : Event}
    (h : Journey.step ⟨c.navigation, ahead⟩ e = Journey.follow ⟨c.navigation, ahead⟩ m)
    (control : Option String) (after : After) :
    Travels c.navigation ahead (follow c control after m) := by
  have hstep : LeadsTo ⟨c.navigation, ahead⟩ (Journey.follow ⟨c.navigation, ahead⟩ m) :=
    h ▸ (LeadsTo.refl _).step e
  obtain ⟨n, move⟩ := m
  cases move with
  | stay moved => exact travels_finish hstep control _
  | fetch f => exact hstep

theorem travels_refresh (c : Console) (ahead : List Fetch) (control : Option String)
    (after : After) : Travels c.navigation ahead (follow c control after c.navigation.refresh) := by
  have hstep : Journey.step ⟨c.navigation, ahead⟩ .refresh =
      Journey.follow ⟨c.navigation, ahead⟩ c.navigation.refresh := rfl
  exact travels_follow hstep control after

theorem travels_conclude {n : Navigation} {ahead : List Fetch} {c : Console}
    (h : LeadsTo ⟨n, ahead⟩ ⟨c.navigation, ahead⟩) (control : Option String) (after : After)
    (moved : Bool) : Travels n ahead (conclude c control after moved) := by
  cases after with
  | report => exact travels_finish h control _
  | entered => exact travels_finish h control _
  | changed outcome => exact travels_finish h control _
  | uploaded outcomes failure =>
      cases failure with
      | none => exact travels_finish h control _
      | some message =>
          exact travels_screen h _ control _

/-! ## The first step -/

theorem travels_change (c : Console) (ahead : List Fetch) (ch : Change)
    (control : Option String) : Travels c.navigation ahead (change c ch control) := by
  have hregister := navigation_register c control
  have hsame : ((c.register control).disable control).navigation = c.navigation :=
    (navigation_disable _ control).trans hregister
  unfold change
  dsimp only
  split
  · exact travels_waiting hsame ahead rfl _
  · rw [← hregister]
    exact travels_of_fetches rfl (leadsTo_screen _ ahead _)
  · rw [← hregister]
    exact travels_of_fetches rfl (LeadsTo.refl _)

theorem travels_gather (c : Console) (ahead : List Fetch) (control : Option String)
    (outcomes : List (Option Outcome)) (failure : Option Value) (calls : List Call) :
    Travels c.navigation ahead (gather c control outcomes failure calls) := by
  unfold gather
  split
  · unfold uploaded
    split
    · exact travels_refresh c ahead control _
    · exact travels_conclude (LeadsTo.refl _) control _ false
  · exact travels_waiting rfl ahead rfl calls

theorem travels_openEntry (c : Console) (ahead : List Fetch) (path kind : String) :
    Travels c.navigation ahead (openEntry c path kind) := by
  have hstep : Journey.step ⟨c.navigation, ahead⟩ (.navigate path false) =
      Journey.follow ⟨c.navigation, ahead⟩ (c.navigation.navigate path false) := rfl
  unfold openEntry
  split
  · exact travels_follow hstep none .entered
  · split
    · exact travels_of_fetches rfl ((LeadsTo.refl _).step (.select _ _))
    · exact travels_finish (LeadsTo.refl _) none _

theorem travels_showBlock (c : Console) (ahead : List Fetch) (sheet : FileSheet) (index : Int) :
    Travels c.navigation ahead (showBlock c sheet index) := by
  unfold showBlock
  split
  · exact travels_screen (LeadsTo.refl _) _ none _
  · exact travels_finish (LeadsTo.refl _) none _

theorem travels_preview (c : Console) (ahead : List Fetch) (path : String) (length : Int) :
    Travels c.navigation ahead (preview c path length) := by
  unfold preview
  dsimp only
  split
  · exact travels_waiting rfl ahead rfl _
  · exact travels_finish (LeadsTo.refl _) none _

theorem travels_begin (c : Console) (ahead : List Fetch) (action : Action) :
    Travels c.navigation ahead (begin c action) := by
  have hrefl : LeadsTo ⟨c.navigation, ahead⟩ ⟨c.navigation, ahead⟩ := LeadsTo.refl _
  cases action with
  | start =>
      have hstep : Journey.step ⟨c.navigation, ahead⟩ .start =
          Journey.follow ⟨c.navigation, ahead⟩ c.navigation.start := rfl
      exact travels_follow hstep none .report
  | refresh => exact travels_refresh c ahead none .report
  | navigate path force =>
      have hstep : Journey.step ⟨c.navigation, ahead⟩ (.navigate path force) =
          Journey.follow ⟨c.navigation, ahead⟩ (c.navigation.navigate path force) := rfl
      exact travels_follow hstep none .report
  | hashChanged fragment =>
      have hstep : Journey.step ⟨c.navigation, ahead⟩ (.hashChanged fragment) =
          Journey.follow ⟨c.navigation, ahead⟩ (c.navigation.hashChanged fragment) := rfl
      exact travels_follow hstep none .report
  | setFragment fragment => exact travels_finish (hrefl.step (.setFragment fragment)) none _
  | select path name => exact travels_finish (hrefl.step (.select path name)) none _
  | openEntry path kind => exact travels_openEntry c ahead path kind
  | showBlock sheet index => exact travels_showBlock c ahead sheet index
  | preview path length => exact travels_preview c ahead path length
  | tail path => exact travels_waiting rfl ahead rfl _
  | change ch control => exact travels_change c ahead ch control
  | upload directory files control =>
      have hsame : ((c.register control).disable control).navigation = c.navigation :=
        (navigation_disable _ control).trans (navigation_register c control)
      rw [← hsame]
      exact travels_gather _ ahead control _ _ _
  | call call => exact travels_waiting rfl ahead rfl _
  | showError message => exact travels_screen hrefl _ none _
  | clearError => exact travels_screen hrefl _ none _

/-! ## Further steps -/

theorem travels_listed {c : Console} {ahead : List Fetch} {f : Fetch}
    (hf : Journey.fetch? ⟨c.navigation, ahead⟩ f.number = some f) (control : Option String)
    (after : After) (o : Outcome) :
    LeadsTo ⟨c.navigation, ahead⟩
      ⟨(listed c control f after o).1.navigation,
        ahead.filter (·.number != f.number) ++ (listed c control f after o).2.fetches⟩ := by
  have hanswer : LeadsTo ⟨c.navigation, ahead⟩
      ⟨(c.navigation.settle f o).1, ahead.filter (·.number != f.number)⟩ := by
    have hstep := (LeadsTo.refl ⟨c.navigation, ahead⟩).step (.answer f.number o)
    rwa [Journey.step, answer_of_fetch? hf] at hstep
  let settled : Console := { c with navigation := (c.navigation.settle f o).1 }
  have hrefl (kept : List Fetch) :
      LeadsTo ⟨settled.navigation, kept⟩ ⟨settled.navigation, kept⟩ := LeadsTo.refl _
  -- The listing is off its way now; what `after` asks for comes from the navigation it left.
  refine hanswer.trans ?_
  unfold listed
  dsimp only
  split
  · exact travels_conclude (hrefl _) control after _
  · exact travels_finish (hrefl _) control _

theorem travels_described [Client] (c : Console) (ahead : List Fetch) (control : Option String)
    (path : String) (located : Value) (o : Outcome) :
    Travels c.navigation ahead (described c control path located o) := by
  have hrefl : LeadsTo ⟨c.navigation, ahead⟩ ⟨c.navigation, ahead⟩ := LeadsTo.refl _
  unfold described
  split
  · exact travels_finish hrefl control _
  · split
    · exact travels_screen hrefl _ control _
    · split
      · exact travels_screen hrefl _ control _
      · exact travels_finish hrefl control _

theorem travels_resume [Client] (c : Console) (ahead : List Fetch) {a : Activity}
    (h : a.phase.fetch? = none) (slot : Nat) (o : Outcome) :
    Travels c.navigation ahead (resume c a slot o) := by
  have hrefl : LeadsTo ⟨c.navigation, ahead⟩ ⟨c.navigation, ahead⟩ := LeadsTo.refl _
  obtain ⟨control, phase⟩ := a
  cases phase with
  | listing f after => cases h
  | locating path =>
      cases o with
      | ok located => exact travels_waiting rfl ahead rfl _
      | error why => exact travels_screen hrefl _ control _
  | describing path located => exact travels_described c ahead control path located o
  | measuring path =>
      cases o with
      | error why => exact travels_screen hrefl _ control _
      | ok status =>
          change Travels c.navigation ahead (measured c control path (.ok status))
          unfold measured
          dsimp only
          split
          · exact travels_preview c ahead path _
          · exact travels_finish hrefl control _
  | reading =>
      cases o with
      | ok content => exact travels_screen hrefl _ control _
      | error why => exact travels_screen hrefl _ control _
  | changing =>
      cases o with
      | ok payload => exact travels_refresh c ahead control _
      | error why => exact travels_screen hrefl _ control _
  | calling => exact travels_finish hrefl control _
  | uploading outcomes failure => exact travels_gather c ahead control _ _ _

end Activity

/-! ## Sessions -/

namespace Session

open Journey

def fetchesOf (running : List (Nat × Activity)) : List Fetch :=
  running.filterMap (·.2.phase.fetch?)

def journey (s : Session) : Journey := ⟨s.console.navigation, fetchesOf s.running⟩

def others (s : Session) (owner : Nat) : List (Nat × Activity) := s.running.filter (·.1 != owner)

structure IsSound (s : Session) : Prop where
  owners : (s.running.map Prod.fst).Nodup
  orderly : s.journey.IsOrderly

theorem mem_of_activity? {s : Session} {owner : Nat} {a : Activity}
    (h : s.activity? owner = some a) : (owner, a) ∈ s.running := by
  obtain ⟨⟨other, b⟩, hfind, rfl⟩ := Option.map_eq_some_iff.mp h
  obtain rfl : other = owner := by simpa using List.find?_some hfind
  exact List.mem_of_find?_eq_some hfind

theorem others_of_none {s : Session} {owner : Nat} (h : s.activity? owner = none) :
    s.others owner = s.running := by
  have hnone := List.find?_eq_none.mp (Option.map_eq_none_iff.mp h)
  exact List.filter_eq_self.mpr fun x hx => by simpa using hnone x hx

theorem fetch_number_ne {s : Session} (h : s.IsSound) {x y : Nat × Activity}
    (hx : x ∈ s.running) (hy : y ∈ s.running) (hne : x ≠ y) {f g : Fetch}
    (hf : x.2.phase.fetch? = some f) (hg : y.2.phase.fetch? = some g) : f.number ≠ g.number := by
  let Differ (x y : Nat × Activity) : Prop := ∀ f, x.2.phase.fetch? = some f →
    ∀ g, y.2.phase.fetch? = some g → f.number ≠ g.number
  have hsymm : Std.Symm Differ := ⟨fun x y hxy f hf g hg => (hxy g hg f hf).symm⟩
  have hpairs : s.running.Pairwise Differ :=
    List.pairwise_filterMap.mp h.orderly.numbers_differ
  exact hpairs.forall hx hy hne f hf g hg

theorem fetchesOf_others {s : Session} (h : s.IsSound) {owner : Nat} {a : Activity}
    (ha : s.activity? owner = some a) :
    fetchesOf (s.others owner) =
      match a.phase.fetch? with
      | none => fetchesOf s.running
      | some f => (fetchesOf s.running).filter (·.number != f.number) := by
  have hmem := mem_of_activity? ha
  have hsame : ∀ x ∈ s.running, x.1 = owner → x = (owner, a) := fun x hx hx' =>
    List.inj_on_of_nodup_map h.owners hx hmem hx'
  unfold fetchesOf others
  rw [List.filterMap_filter]
  cases hfetch : a.phase.fetch? with
  | none =>
      refine List.filterMap_congr fun x hx => ?_
      by_cases hx' : x.1 = owner
      · simp [hsame x hx hx', hfetch]
      · simp [hx']
  | some f =>
      dsimp only
      rw [List.filter_filterMap]
      refine List.filterMap_congr fun x hx => ?_
      by_cases hx' : x.1 = owner
      · simp [hsame x hx hx', hfetch, Option.filter]
      · have hne : x ≠ (owner, a) := fun heq => hx' (congrArg Prod.fst heq)
        cases hx'' : x.2.phase.fetch? with
        | none => simp [hx', Option.filter]
        | some g =>
            have hnumber := fetch_number_ne h hx hmem hne hx'' hfetch
            simp [hx', Option.filter, hnumber]

/-! ## Ends of activities -/

theorem leadsTo_close {s : Session} (h : s.IsSound) (owner : Nat) (e : Ending) :
    LeadsTo s.journey (s.close owner e).journey := by
  have hjourney : (s.close owner e).journey =
      ⟨s.console.navigation, fetchesOf (s.others owner)⟩ := rfl
  rw [hjourney]
  cases ha : s.activity? owner with
  | none =>
      rw [others_of_none ha]
      exact LeadsTo.refl _
  | some a =>
      rw [fetchesOf_others h ha]
      cases a.phase.fetch? with
      | none => exact LeadsTo.refl _
      | some f => exact (LeadsTo.refl s.journey).step (.lose f.number)

theorem owners_others {s : Session} (h : (s.running.map Prod.fst).Nodup) (owner : Nat) :
    ((s.others owner).map Prod.fst).Nodup :=
  h.sublist (List.filter_sublist.map Prod.fst)

theorem IsSound.of_leadsTo {s t : Session} (h : s.IsSound) (hleads : LeadsTo s.journey t.journey)
    (howners : (t.running.map Prod.fst).Nodup) : t.IsSound := by
  obtain ⟨events, hevents⟩ := hleads
  exact ⟨howners, hevents ▸ isOrderly_run h.orderly events⟩

theorem journey_abort (s : Session) (owner : Nat) (a : Activity) (fs : List Fault) :
    (s.abort owner a fs).journey = ⟨s.console.navigation, fetchesOf (s.others owner)⟩ := by
  have hconsole : (s.abort owner a fs).console.navigation = s.console.navigation :=
    Activity.navigation_enable s.console a.control
  rw [journey, hconsole]
  rfl

theorem isSound_abort {s : Session} (h : s.IsSound) (owner : Nat) (a : Activity)
    (fs : List Fault) : LeadsTo s.journey (s.abort owner a fs).journey ∧
      (s.abort owner a fs).IsSound := by
  have hleads : LeadsTo s.journey (s.abort owner a fs).journey := by
    rw [journey_abort]
    exact leadsTo_close h owner (.answered .nothing)
  exact ⟨hleads, h.of_leadsTo hleads (owners_others h.owners owner)⟩

/-! ## Steps -/

theorem sendAll_running (s : Session) (owner : Nat) (ds : List Draft) :
    (s.sendAll owner ds).running = s.running ∧ (s.sendAll owner ds).console = s.console := by
  unfold sendAll
  induction ds generalizing s with
  | nil => exact ⟨rfl, rfl⟩
  | cons d ds ih => exact ih (s.send owner d)

theorem journey_setActivity (s : Session) (owner : Nat) (a : Activity) :
    (s.setActivity owner a).journey =
      ⟨s.console.navigation, fetchesOf (s.others owner) ++ a.phase.fetch?.toList⟩ := by
  change (⟨s.console.navigation, fetchesOf (s.others owner ++ [(owner, a)])⟩ : Journey) = _
  rw [fetchesOf, List.filterMap_append]
  cases hfetch : a.phase.fetch? with
  | none => simp [fetchesOf, hfetch]
  | some f => simp [fetchesOf, hfetch]

theorem owners_setActivity {s : Session} (h : (s.running.map Prod.fst).Nodup) (owner : Nat)
    (a : Activity) : ((s.setActivity owner a).running.map Prod.fst).Nodup := by
  have hnew : owner ∉ (s.others owner).map Prod.fst := by
    intro hmem
    obtain ⟨x, hx, hx'⟩ := List.mem_map.mp hmem
    exact absurd hx' (by simpa using (List.mem_filter.mp hx).2)
  change ((s.others owner ++ [(owner, a)]).map Prod.fst).Nodup
  rw [List.map_append, List.nodup_append]
  refine ⟨owners_others h owner, by simp, ?_⟩
  intro other hother last hlast heq
  obtain rfl : last = owner := by simpa using hlast
  exact hnew (heq ▸ hother)

theorem isSound_opening (settings : Settings) (fragment : String) :
    (opening settings fragment).IsSound :=
  ⟨List.nodup_nil, isOrderly_opening fragment⟩

variable [Client]

theorem leadsTo_wait {s : Session} {owner : Nat} {a : Activity} (calls : List Call)
    (h : (s.setActivity owner a).IsSound) :
    LeadsTo (s.setActivity owner a).journey (s.wait owner a calls).journey ∧
      (s.wait owner a calls).IsSound := by
  unfold wait
  generalize Draft.ofCalls s.console.settings 0 calls = drafted
  obtain ⟨drafts, faults⟩ := drafted
  dsimp only
  obtain ⟨hrunning, hconsole⟩ := sendAll_running (s.setActivity owner a) owner (Draft.sort drafts)
  generalize (s.setActivity owner a).sendAll owner (Draft.sort drafts) = sent at *
  have hjourney : sent.journey = (s.setActivity owner a).journey := by
    rw [journey, journey, hrunning, hconsole]
  have hsound : sent.IsSound := ⟨hrunning ▸ h.owners, hjourney ▸ h.orderly⟩
  rw [← hjourney]
  split
  · exact ⟨LeadsTo.refl _, hsound⟩
  · exact isSound_abort hsound owner a faults

theorem leadsTo_proceed {s : Session} (h : s.IsSound) {owner : Nat} {r : Console × Progress}
    (hstep : LeadsTo s.journey ⟨r.1.navigation, fetchesOf (s.others owner) ++ r.2.fetches⟩) :
    LeadsTo s.journey (s.proceed owner r).journey ∧ (s.proceed owner r).IsSound := by
  obtain ⟨c, progress⟩ := r
  have hothers := owners_others h.owners owner
  cases progress with
  | finished answer =>
      have hleads : LeadsTo s.journey ⟨c.navigation, fetchesOf (s.others owner)⟩ := by
        simpa [Progress.fetches] using hstep
      exact ⟨hleads, h.of_leadsTo (t := s.proceed owner (c, .finished answer)) hleads hothers⟩
  | aborted why =>
      have hleads : LeadsTo s.journey ⟨c.navigation, fetchesOf (s.others owner)⟩ := by
        simpa [Progress.fetches] using hstep
      exact ⟨hleads, h.of_leadsTo (t := s.proceed owner (c, .aborted why)) hleads hothers⟩
  | waiting a calls =>
      have hleads : LeadsTo s.journey ({ s with console := c }.setActivity owner a).journey :=
        (journey_setActivity { s with console := c } owner a) ▸ hstep
      have howners := owners_setActivity (s := { s with console := c }) h.owners owner a
      obtain ⟨hwait, hsound⟩ := leadsTo_wait calls (h.of_leadsTo hleads howners)
      exact ⟨hleads.trans hwait, hsound⟩

theorem leadsTo_start {s : Session} (h : s.IsSound) {owner : Nat}
    (hnew : s.activity? owner = none) (action : Action) :
    LeadsTo s.journey (s.start owner action).journey ∧ (s.start owner action).IsSound := by
  refine leadsTo_proceed h ?_
  rw [others_of_none hnew]
  exact Activity.travels_begin s.console (fetchesOf s.running) action

theorem leadsTo_resume {s : Session} (h : s.IsSound) {owner : Nat} {a : Activity}
    (ha : s.activity? owner = some a) (slot : Nat) (o : Outcome) :
    LeadsTo s.journey (s.proceed owner (a.resume s.console slot o)).journey ∧
      (s.proceed owner (a.resume s.console slot o)).IsSound := by
  refine leadsTo_proceed h ?_
  rw [fetchesOf_others h ha]
  obtain ⟨control, phase⟩ := a
  cases phase with
  | listing f after =>
      have hmem : f ∈ s.journey.ahead :=
        List.mem_filterMap.mpr ⟨_, mem_of_activity? ha, rfl⟩
      exact Activity.travels_listed (fetch?_of_mem h.orderly hmem) control after o
  | _ => exact Activity.travels_resume s.console (fetchesOf s.running) rfl slot o

theorem leadsTo_release {s : Session} (h : s.IsSound) (p : Pending) (r : Reply) :
    LeadsTo s.journey (s.release p r).journey ∧ (s.release p r).IsSound := by
  unfold release
  cases ha : s.activity? p.owner with
  | none => exact ⟨LeadsTo.refl _, h⟩
  | some a =>
      dsimp only
      cases p.draft.resolve (p.draft.exchange.receive r) with
      | pending exchange => exact ⟨LeadsTo.refl _, h.owners, h.orderly⟩
      | returned o => exact leadsTo_resume h ha _ o
      | raised f => exact isSound_abort h p.owner a [f]

/-- A reply is for a request that waits, or for one that nobody waits for any longer. -/
theorem answer?_cases {s t : Session} {number : Nat} {r : Reply} (h : s.answer? number r = some t) :
    (∃ p, s.pending? number = some p ∧ t = (s.withdraw number).release p r) ∨
      s.pending? number = none ∧ ∃ abandoned, t = { s with abandoned } := by
  unfold answer? at h
  split at h
  · next p hp => exact .inl ⟨p, hp, (Option.some.inj h).symm⟩
  · next hnone =>
      obtain ⟨-, ht⟩ := Option.ite_none_right_eq_some.mp h
      exact .inr ⟨hnone, _, (Option.some.inj ht).symm⟩

/-! ## Runs -/

/-- The sessions that can come about: actions start for new owners, and replies come in any
order. -/
inductive Reached (settings : Settings) (fragment : String) : Session → Prop
  | opening : Reached settings fragment (opening settings fragment)
  | start {s : Session} (h : Reached settings fragment s) {owner : Nat}
      (hnew : s.activity? owner = none) (action : Action) :
      Reached settings fragment (s.start owner action)
  | answer {s t : Session} (h : Reached settings fragment s) {number : Nat} {r : Reply}
      (hanswer : s.answer? number r = some t) : Reached settings fragment t

theorem Reached.journey {settings : Settings} {fragment : String} {s : Session}
    (h : Reached settings fragment s) :
    LeadsTo (Journey.opening fragment) s.journey ∧ s.IsSound := by
  induction h with
  | opening => exact ⟨LeadsTo.refl _, isSound_opening settings fragment⟩
  | start h hnew action ih =>
      obtain ⟨hleads, hsound⟩ := leadsTo_start ih.2 hnew action
      exact ⟨ih.1.trans hleads, hsound⟩
  | @answer s t h number r hanswer ih =>
      rcases answer?_cases hanswer with ⟨p, -, rfl⟩ | ⟨-, abandoned, rfl⟩
      · have hwithdrawn : (s.withdraw number).IsSound := ⟨ih.2.owners, ih.2.orderly⟩
        obtain ⟨hleads, hsound⟩ := leadsTo_release hwithdrawn p r
        exact ⟨ih.1.trans hleads, hsound⟩
      · exact ⟨ih.1, ih.2.owners, ih.2.orderly⟩

end Session

end HdfsBrowser
