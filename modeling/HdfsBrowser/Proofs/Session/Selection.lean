import HdfsBrowser.Proofs.Session.Deed

/-!
# The selection and the file on the screen

A path is selected when it is selected by name or opened as a file, and a
listing that commits selects nothing.  The sheet of a file comes to the screen
with the outcome that tells its status, and in no other way.  So what a run
selects is its last choice, and each sheet on the screen has a step that showed
it.
-/

namespace HdfsBrowser

/-! ## Choices and sheets -/

def Action.opened? : Action → Option String
  | .openEntry path kind => if kind = "FILE" then some (Path.normalize path) else none
  | _ => none

def Action.choice? : Action → Option (Option String)
  | .select path _ => some path
  | action => action.opened?.map some

/-- An outcome selects nothing when it makes a listing commit. -/
def Phase.choice? (n : Navigation) : Phase → Outcome → Option (Option String)
  | .listing f _, .ok payload =>
    if f.number < n.settled then none
    else
      match Listing.ofPayload f.target payload with
      | .ok _ => some none
      | .error _ => none
  | _, _ => none

def Phase.sheet? [Client] (settings : Settings) : Phase → Outcome → Option FileSheet
  | .describing path located, o =>
    match Activity.statusOf o with
    | .ok status => (Activity.sheetOf settings path located status).toOption
    | .error _ => none
  | _, _ => none

theorem Phase.sheet?_eq_some [Client] {settings : Settings} {phase : Phase} {o : Outcome}
    {sheet : FileSheet} (h : phase.sheet? settings o = some sheet) :
    ∃ path located status, phase = .describing path located ∧
      Activity.statusOf o = .ok status ∧
        Activity.sheetOf settings path located status = .ok sheet := by
  cases phase with
  | describing path located =>
      simp only [sheet?] at h
      cases hstatus : Activity.statusOf o with
      | error why => simp [hstatus] at h
      | ok status =>
          cases hsheet : Activity.sheetOf settings path located status with
          | error why => simp [hstatus, hsheet, Except.toOption] at h
          | ok found =>
              obtain rfl : found = sheet := by simpa [hstatus, hsheet, Except.toOption] using h
              exact ⟨path, located, status, rfl, rfl, hsheet⟩
  | _ => cases h

/-! ## Navigation -/

namespace Navigation

structure Turns (choice : Option (Option String)) (sheet : Option FileSheet) (n n' : Navigation) :
    Prop where
  selected : n'.selectedPath = choice.getD n.selectedPath
  shown : ∀ f, n'.screen.shown = some (.file f) →
    n.screen.shown = some (.file f) ∨ sheet = some f

variable {choice : Option (Option String)} {sheet : Option FileSheet} {n n' n'' : Navigation}

theorem turns_of_eq (hselected : n'.selectedPath = n.selectedPath)
    (hshown : n'.screen.shown = n.screen.shown) : Turns none none n n' :=
  ⟨hselected, fun _ hf => .inl (hshown ▸ hf)⟩

theorem Turns.refl (n : Navigation) : Turns none none n n := turns_of_eq rfl rfl

theorem turns_select (n : Navigation) (path name : Option String) :
    Turns (some path) none n (n.select path name) := ⟨rfl, fun _ => .inl⟩

theorem Turns.trans (h : Turns choice sheet n n') (h' : Turns none none n' n'') :
    Turns choice sheet n n'' where
  selected := h'.selected.trans h.selected
  shown f hf := (h'.shown f hf).elim (h.shown f) nofun

theorem turns_navigate (n : Navigation) (path : String) (force : Bool) :
    Turns none none n (n.navigate path force).1 := by
  refine turns_of_eq (congrArg Prod.fst (n.selection_navigate path force)) ?_
  unfold navigate
  dsimp only
  split <;> rfl

theorem turns_start (n : Navigation) : Turns none none n n.start.1 := by
  have hpublished : Turns none none n
      (if n.fragment = "" then n.publish (Path.normalize n.fragment) else n) := by
    split
    · exact turns_of_eq (congrArg Prod.fst (n.selection_publish _))
        (congrArg Screen.shown (n.screen_publish _))
    · exact .refl n
  exact hpublished.trans (turns_navigate _ _ true)

theorem turns_hashChanged (n : Navigation) (fragment : String) :
    Turns none none n (n.hashChanged fragment).1 := by
  unfold hashChanged
  split
  · exact turns_of_eq rfl rfl
  · split
    · exact .refl n
    · have hcleared : Turns none none n { n with screen := n.screen.clearError } :=
        turns_of_eq rfl rfl
      exact hcleared.trans (turns_navigate _ fragment false)

theorem turns_commit (n : Navigation) (f : Fetch) (l : Listing) :
    Turns (some none) none n (n.commit f l).1 where
  selected := congrArg Prod.fst (n.enters_commit f l).selection
  shown file hfile := by
    cases htext : (Page.listing l).text with
    | ok text => simp [(n.screen_commit_of_text f htext).1] at hfile
    | error why => simp [(n.screen_commit_of_fault f htext).1] at hfile

theorem turns_settle (n : Navigation) (f : Fetch) (after : After) (o : Outcome) :
    Turns ((Phase.listing f after).choice? n o) none n (n.settle f o).1 := by
  have hstays := Turns.refl n
  have hfails (message : Value) : Turns none none n (n.fail f message) := turns_of_eq rfl rfl
  by_cases hlate : f.number < n.settled
  · cases o <;> simpa [settle, Phase.choice?, hlate] using hstays
  · cases o with
    | error why => simpa [settle, Phase.choice?, hlate] using hfails _
    | ok payload =>
        simp only [settle, Phase.choice?, hlate, if_false]
        cases Listing.ofPayload f.target payload with
        | ok l => exact n.turns_commit f l
        | error why =>
            dsimp only
            split
            · exact hfails _
            · exact hstays

end Navigation

/-! ## Activities -/

namespace Activity

open Navigation (Turns turns_of_eq)

variable {n : Navigation} {choice : Option (Option String)} {sheet : Option FileSheet} {c : Console}

theorem turns_finish (h : Turns choice sheet n c.navigation) (control : Option String)
    (r : Except Fault Answer) : Turns choice sheet n (finish c control r).1.navigation := by
  have hsame : (finish c control r).1.navigation = c.navigation := navigation_enable c control
  rwa [hsame]

theorem turns_complain (h : Turns choice sheet n c.navigation) (control : Option String)
    (message : Value) (answer : Answer) :
    Turns choice sheet n (complain c control message answer).1.navigation := by
  have hmessage : Turns none none c.navigation (c.showError message).navigation :=
    turns_of_eq rfl rfl
  exact turns_finish (h.trans hmessage) control _

theorem navigation_display (c : Console) (control : Option String) (page : Page)
    (answer : Answer) : (display c control page answer).1.navigation =
      { c.navigation with screen := (c.screen.showPage page).1 } :=
  navigation_enable _ control

theorem shown_showPage (s : Screen) (page : Page) : (s.showPage page).1.shown = some page := by
  unfold Screen.showPage
  dsimp only
  split <;> rfl

theorem turns_display (c : Console) (control : Option String) {page : Page}
    (hpage : ∀ f, page ≠ .file f) (answer : Answer) :
    Turns none none c.navigation (display c control page answer).1.navigation := by
  rw [navigation_display]
  refine ⟨rfl, fun f hf => ?_⟩
  rw [shown_showPage] at hf
  exact absurd (Option.some.inj hf) (hpage f)

theorem turns_follow {m : Navigation × Move} (h : Turns choice sheet n m.1) (c : Console)
    (control : Option String) (after : After) :
    Turns choice sheet n (follow c control after m).1.navigation := by
  obtain ⟨n', move⟩ := m
  cases move with
  | stay moved => exact turns_finish (c := { c with navigation := n' }) h control _
  | fetch f => exact h

theorem turns_conclude (h : Turns choice sheet n c.navigation) (control : Option String)
    (after : After) (moved : Bool) :
    Turns choice sheet n (conclude c control after moved).1.navigation := by
  unfold conclude
  split
  · exact turns_finish h control _
  · exact turns_finish h control _
  · exact turns_finish h control _
  · exact turns_finish h control _
  · exact turns_complain h control _ _

theorem turns_gather (h : Turns choice sheet n c.navigation) (control : Option String)
    (outcomes : List (Option Outcome)) (failure : Option Value) (calls : List Call) :
    Turns choice sheet n (gather c control outcomes failure calls).1.navigation := by
  unfold gather
  split
  · unfold uploaded
    split
    · exact turns_follow (h.trans (c.navigation.turns_navigate _ true)) c control _
    · exact turns_conclude h control _ false
  · exact h

theorem turns_openEntry (c : Console) (path kind : String) :
    Turns (Action.openEntry path kind).choice? none c.navigation
      (openEntry c path kind).1.navigation := by
  by_cases hfile : kind = "FILE"
  · subst hfile
    exact c.navigation.turns_select _ _
  · have hnothing : (Action.openEntry path kind).choice? = none := by
      simp [Action.choice?, Action.opened?, hfile]
    rw [hnothing, openEntry, if_neg hfile]
    split
    · exact turns_follow (c.navigation.turns_navigate path false) c none .entered
    · exact turns_finish (.refl _) none _

theorem turns_preview (c : Console) (path : String) (length : Int) :
    Turns none none c.navigation (preview c path length).1.navigation := by
  unfold preview
  dsimp only
  split
  · exact .refl _
  · exact turns_finish (.refl _) none _

theorem turns_begin (c : Console) (action : Action) :
    Turns action.choice? none c.navigation (begin c action).1.navigation := by
  cases action with
  | start => exact turns_follow c.navigation.turns_start c none .report
  | refresh => exact turns_follow (c.navigation.turns_navigate _ true) c none .report
  | navigate path force =>
      exact turns_follow (c.navigation.turns_navigate path force) c none .report
  | hashChanged fragment =>
      exact turns_follow (c.navigation.turns_hashChanged fragment) c none .report
  | setFragment fragment =>
      have hfragment : Turns none none c.navigation (c.setFragment fragment).navigation :=
        turns_of_eq rfl rfl
      exact turns_finish hfragment none _
  | select path name =>
      exact turns_finish (c := c.select path name) (c.navigation.turns_select path name) none _
  | openEntry path kind => exact turns_openEntry c path kind
  | showBlock sheet index =>
      simp only [begin, showBlock]
      split
      · exact turns_display c none (by simp) _
      · exact turns_finish (.refl _) none _
  | preview path length =>
      simp only [begin]
      exact turns_preview c path length
  | tail path => exact .refl _
  | change ch control =>
      have hregistered : Turns none none c.navigation (c.register control).navigation :=
        navigation_register c control ▸ .refl _
      simp only [begin, change]
      split
      · exact navigation_disable (c.register control) control ▸ hregistered
      · exact hregistered.trans (turns_of_eq rfl rfl)
      · exact hregistered
  | upload directory files control =>
      have hdisabled : Turns none none c.navigation
          ((c.register control).disable control).navigation := by
        rw [navigation_disable, navigation_register]
        exact .refl _
      exact turns_gather hdisabled control _ none _
  | call call => exact .refl _
  | showError message =>
      have hmessage : Turns none none c.navigation (c.showError message).navigation :=
        turns_of_eq rfl rfl
      exact turns_finish hmessage none _
  | clearError =>
      have hcleared : Turns none none c.navigation c.clearError.navigation := turns_of_eq rfl rfl
      exact turns_finish hcleared none _

theorem turns_listed (c : Console) (control : Option String) (f : Fetch) (after : After)
    (o : Outcome) : Turns ((Phase.listing f after).choice? c.navigation o) none c.navigation
      (listed c control f after o).1.navigation := by
  have hsettled := c.navigation.turns_settle f after o
  unfold listed
  dsimp only
  split
  · exact turns_conclude hsettled control after _
  · exact turns_finish hsettled control _

theorem resume_of_sheet [Client] {a : Activity} {o : Outcome} {sheet : FileSheet}
    (h : a.phase.sheet? c.settings o = some sheet) (slot : Nat) :
    (resume c a slot o).1.navigation =
      { c.navigation with screen := (c.screen.showPage (.file sheet)).1 } := by
  obtain ⟨path, located, status, hphase, hstatus, hsheet⟩ := Phase.sheet?_eq_some h
  simp only [resume, hphase, described, hstatus, hsheet]
  exact navigation_display c a.control (.file sheet) (.sheet sheet)

theorem turns_described [Client] (c : Console) (control : Option String) (path : String)
    (located : Value) (o : Outcome) : Turns none ((Phase.describing path located).sheet? c.settings o) c.navigation
      (described c control path located o).1.navigation := by
  simp only [described, Phase.sheet?]
  cases statusOf o with
  | error why => exact turns_finish (.refl _) control _
  | ok status =>
      dsimp only
      cases sheetOf c.settings path located status with
      | ok sheet =>
          dsimp only
          rw [navigation_display]
          refine ⟨rfl, fun f hf => .inr ?_⟩
          rw [shown_showPage] at hf
          cases hf
          rfl
      | error why =>
          dsimp only
          split
          · exact turns_complain (.refl _) control _ _
          · exact turns_finish (.refl _) control _

theorem turns_resume [Client] (c : Console) (a : Activity) (slot : Nat) (o : Outcome) :
    Turns (a.phase.choice? c.navigation o) (a.phase.sheet? c.settings o) c.navigation
      (resume c a slot o).1.navigation := by
  obtain ⟨control, phase⟩ := a
  cases phase with
  | listing f after => exact turns_listed c control f after o
  | locating path =>
      cases o with
      | ok located => exact .refl _
      | error why => exact turns_complain (.refl _) control _ _
  | describing path located => exact turns_described c control path located o
  | measuring path =>
      simp only [resume, measured]
      split
      · exact turns_complain (.refl _) control _ _
      · split
        · exact turns_preview c path _
        · exact turns_finish (.refl _) control _
  | reading =>
      cases o with
      | ok content => exact turns_display c control (by simp) _
      | error why => exact turns_complain (.refl _) control _ _
  | changing =>
      cases o with
      | ok payload => exact turns_follow (c.navigation.turns_navigate _ true) c control _
      | error why => exact turns_complain (.refl _) control _ _
  | calling => exact turns_finish (.refl _) control _
  | uploading outcomes failure => exact turns_gather (.refl _) control _ _ _

end Activity

/-! ## Sessions -/

namespace Session

open Navigation (Turns turns_of_eq)

variable {s : Session} {owner : Nat}

/-- An outcome and the activity that goes on with it. -/
structure Hearing where
  owner : Nat
  activity : Activity
  slot : Nat
  outcome : Outcome

variable [Client]

def heard? (s : Session) : Event → Option Hearing
  | .start .. => none
  | .reply number r =>
    match s.pending? number with
    | none => none
    | some p =>
      match s.activity? p.owner, p.draft.resolution [r] with
      | some a, .returned o => some ⟨p.owner, a, p.draft.slot, o⟩
      | _, _ => none

def choice? (s : Session) : Event → Option (Option String)
  | .start owner action => if (s.activity? owner).isSome then none else action.choice?
  | e => (s.heard? e).bind fun x => x.activity.phase.choice? s.console.navigation x.outcome

def sheet? (s : Session) (e : Event) : Option (Nat × FileSheet) :=
  (s.heard? e).bind fun x =>
    (x.activity.phase.sheet? s.console.settings x.outcome).map fun sheet => (x.owner, sheet)

def lastChoice? (s : Session) : List Event → Option (Option String)
  | [] => none
  | e :: events => ((s.step e).lastChoice? events).or (s.choice? e)

theorem navigation_wait (s : Session) (owner : Nat) (a : Activity) (calls : List Call) :
    (s.wait owner a calls).console.navigation = s.console.navigation := by
  have hconsole (ds : List Draft) :
      ((s.setActivity owner a).sendAll owner ds).console = s.console :=
    (sendAll_running (s.setActivity owner a) owner ds).2
  unfold wait
  dsimp only
  split
  · rw [hconsole]
  · exact (Activity.navigation_enable _ a.control).trans (by rw [hconsole])

theorem navigation_proceed (s : Session) (owner : Nat) (r : Console × Progress) :
    (s.proceed owner r).console.navigation = r.1.navigation := by
  unfold proceed
  dsimp only
  split
  · rfl
  · rfl
  · exact navigation_wait _ owner _ _

theorem reply_cases (s : Session) (number : Nat) (r : Reply) :
    (∃ x, s.heard? (.reply number r) = some x ∧ s.activity? x.owner = some x.activity ∧
      s.step (.reply number r) = (s.withdraw number).proceed x.owner
        (x.activity.resume s.console x.slot x.outcome)) ∨
    (s.heard? (.reply number r) = none ∧
      (s.step (.reply number r)).console.navigation = s.console.navigation ∧
      ∀ owner a, (s.step (.reply number r)).activity? owner = some a →
        s.activity? owner = some a) := by
  cases hp : s.pending? number with
  | none =>
      have hstays : s.mover? (.reply number r) = none := by simp [mover?, hp]
      obtain ⟨abandoned, hstep⟩ := step_of_mover?_eq_none hstays
      rw [hstep]
      exact .inr ⟨by simp [heard?, hp], rfl, fun _ _ => id⟩
  | some p =>
      rw [step_reply hp]
      cases ha : s.activity? p.owner with
      | none =>
          have hkept : (s.withdraw number).release p r = s.withdraw number := by
            simp [release, show (s.withdraw number).activity? p.owner = none from ha]
          rw [hkept]
          exact .inr ⟨by simp [heard?, hp, ha], rfl, fun _ _ => id⟩
      | some a =>
          rw [release_of_resolution (show (s.withdraw number).activity? p.owner = some a from ha)]
          cases hresolution : p.draft.resolution [r] with
          | pending e => exact .inr ⟨by simp [heard?, hp, ha, hresolution], rfl, fun _ _ => id⟩
          | returned o =>
              exact .inl ⟨⟨p.owner, a, p.draft.slot, o⟩, by simp [heard?, hp, ha, hresolution],
                ha, rfl⟩
          | raised f =>
              refine .inr ⟨by simp [heard?, hp, ha, hresolution],
                Activity.navigation_enable s.console a.control, fun owner b hb => ?_⟩
              by_cases hne : p.owner = owner
              · subst hne
                simp [abort, activity?_close] at hb
              · have hshare := share_abort_of_ne hne (s.withdraw number) a [f]
                exact (congrArg Share.activity? hshare).symm.trans hb

theorem turns_step (s : Session) (e : Event) :
    Turns (s.choice? e) ((s.sheet? e).map Prod.snd) s.console.navigation
      (s.step e).console.navigation := by
  cases e with
  | start owner action =>
      cases hactivity : s.activity? owner with
      | none =>
          rw [step_start hactivity, start, navigation_proceed]
          simpa [choice?, sheet?, heard?, hactivity] using Activity.turns_begin s.console action
      | some a =>
          simpa [choice?, sheet?, heard?, step, hactivity] using turns_of_eq rfl rfl
  | reply number r =>
      rcases s.reply_cases number r with ⟨x, hheard, -, hstep⟩ | ⟨hunheard, hsame, -⟩
      · rw [hstep, navigation_proceed]
        simpa [choice?, sheet?, hheard, Function.comp_def] using
          Activity.turns_resume s.console x.activity x.slot x.outcome
      · rw [hsame]
        simpa [choice?, sheet?, hunheard] using turns_of_eq rfl rfl

theorem selectedPath_run (s : Session) (events : List Event) :
    (s.run events).console.navigation.selectedPath =
      (s.lastChoice? events).getD s.console.navigation.selectedPath := by
  induction events generalizing s with
  | nil => rfl
  | cons e events ih =>
      rw [run_cons, ih, (s.turns_step e).selected, lastChoice?]
      cases (s.step e).lastChoice? events <;> rfl

end Session

end HdfsBrowser
