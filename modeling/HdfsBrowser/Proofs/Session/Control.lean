import HdfsBrowser.Proofs.Session.Deed

/-!
# Controls

A change or an upload holds the control that it was started with from its first
request to the end of the listing that follows, and an owner that ends in
whatever way frees its control.  Where controls are used only while they are
enabled, no two owners hold the same one, so that a control is disabled exactly
while something that was started with it is under way.
-/

namespace HdfsBrowser

/-! ## Which controls are enabled -/

namespace Console

def isEnabled (c : Console) (name : String) : Bool := (c.controls.lookup name).getD true

theorem lookup_setControl (name : String) (enabled : Bool) (controls : List (String × Bool))
    (other : String) :
    (setControl name enabled controls).lookup other =
      if other = name then some enabled else controls.lookup other := by
  induction controls with
  | nil => grind [setControl]
  | cons control controls ih => grind [setControl]

@[simp] theorem isEnabled_register (c : Console) (control : Option String) (name : String) :
    (c.register control).isEnabled name = c.isEnabled name := by
  cases control with
  | none => rfl
  | some held =>
      unfold register isEnabled
      dsimp only
      split
      · rfl
      · rw [List.lookup_append]
        grind

@[simp] theorem isEnabled_disable (c : Console) (control : Option String) (name : String) :
    (c.disable control).isEnabled name = (c.isEnabled name && control != some name) := by
  cases control with
  | none => simp [disable]
  | some held =>
      by_cases hsame : name = held
      · simp [disable, isEnabled, lookup_setControl, hsame]
      · simp [disable, isEnabled, lookup_setControl, hsame, Ne.symm hsame]

@[simp] theorem isEnabled_enable (c : Console) (control : Option String) (name : String) :
    (c.enable control).isEnabled name = (c.isEnabled name || control == some name) := by
  cases control with
  | none => simp [enable]
  | some held =>
      by_cases hsame : name = held
      · simp [enable, isEnabled, lookup_setControl, hsame]
      · simp [enable, isEnabled, lookup_setControl, hsame, Ne.symm hsame]

end Console

/-! ## What holds a control -/

def Action.control? : Action → Option String
  | .change _ control => control
  | .upload _ _ control => control
  | _ => none

def Action.IsAccepted : Action → Prop
  | .change ch _ => ∃ call, ch.call = .ok call
  | .upload .. => True
  | _ => False

def After.isRefresh : After → Bool
  | .changed _ => true
  | .uploaded .. => true
  | _ => false

def Phase.isMutation : Phase → Bool
  | .listing _ after => after.isRefresh
  | .changing => true
  | .uploading .. => true
  | _ => false

/-- Only what changes something holds a control. -/
def Activity.IsOrderly (a : Activity) : Prop := a.control ≠ none → a.phase.isMutation = true

namespace Activity

/-- A step after which the control is held by the activity that goes on, or is free because there
is none.  Nothing happens to other controls. -/
inductive Keeps (c : Console) (control : Option String) : Console × Progress → Prop
  | waits {c' : Console} {a : Activity} {calls : List Call} (hcontrol : a.control = control)
      (horderly : a.IsOrderly) (henabled : ∀ name, c'.isEnabled name = c.isEnabled name) :
      Keeps c control (c', .waiting a calls)
  | finishes {c' : Console} {answer : Answer}
      (henabled : ∀ name, c'.isEnabled name = (c.isEnabled name || control == some name)) :
      Keeps c control (c', .finished answer)
  | aborts {c' : Console} {why : Abort}
      (henabled : ∀ name, c'.isEnabled name = (c.isEnabled name || control == some name)) :
      Keeps c control (c', .aborted why)

def Spares (c c' : Console) : Prop := ∀ name, c'.isEnabled name = c.isEnabled name

theorem Spares.refl (c : Console) : Spares c c := fun _ => rfl

section Ends

variable {c c' : Console} (h : Spares c c') (control : Option String)
include h

theorem keeps_finish (r : Except Fault Answer) : Keeps c control (finish c' control r) := by
  have hfree : ∀ name, (c'.enable control).isEnabled name =
      (c.isEnabled name || control == some name) := fun name => by
    rw [Console.isEnabled_enable, h name]
  cases r with
  | ok answer => exact .finishes hfree
  | error why => exact .aborts hfree

theorem keeps_complain (message : Value) (answer : Answer) :
    Keeps c control (complain c' control message answer) := by
  have hmessage : Spares c (c'.showError message) := h
  exact keeps_finish hmessage control _

theorem keeps_display (page : Page) (answer : Answer) :
    Keeps c control (display c' control page answer) := by
  have hshown : Spares c (c'.showPage page).1 := h
  exact keeps_finish hshown control _

theorem keeps_follow (after : After) (hafter : control ≠ none → after.isRefresh = true)
    (m : Navigation × Move) : Keeps c control (follow c' control after m) := by
  obtain ⟨n, move⟩ := m
  have hmoved : Spares c { c' with navigation := n } := h
  cases move with
  | stay moved =>
      exact keeps_finish hmoved control (.ok (if after = .entered then .nothing else .flag moved))
  | fetch f => exact .waits rfl hafter hmoved

theorem keeps_conclude (after : After) (moved : Bool) :
    Keeps c control (conclude c' control after moved) := by
  unfold conclude
  split
  · exact keeps_finish h control _
  · exact keeps_finish h control _
  · exact keeps_finish h control _
  · exact keeps_finish h control _
  · exact keeps_complain h control _ _

theorem keeps_gather (outcomes : List (Option Outcome)) (failure : Option Value)
    (calls : List Call) : Keeps c control (gather c' control outcomes failure calls) := by
  unfold gather
  split
  · unfold uploaded
    split
    · exact keeps_follow h control _ (fun _ => rfl) _
    · exact keeps_conclude h control _ false
  · exact .waits rfl (fun _ => rfl) h

end Ends

theorem keeps_preview (c : Console) (path : String) (length : Int) :
    Keeps c none (preview c path length) := by
  unfold preview
  dsimp only
  split
  · exact .waits rfl nofun (Spares.refl c)
  · exact keeps_finish (.refl c) none _

theorem keeps_resume [Client] (c : Console) {a : Activity} (horderly : a.IsOrderly) (slot : Nat)
    (o : Outcome) : Keeps c a.control (resume c a slot o) := by
  have hsame := Spares.refl c
  obtain ⟨control, phase⟩ := a
  cases phase with
  | listing f after =>
      have hsettled : Spares c { c with navigation := (c.navigation.settle f o).1 } := hsame
      simp only [resume, listed]
      split
      · exact keeps_conclude hsettled control after _
      · exact keeps_finish hsettled control _
  | locating path =>
      cases o with
      | ok located => exact .waits rfl horderly hsame
      | error why => exact keeps_complain hsame control _ _
  | describing path located =>
      simp only [resume, described]
      split
      · exact keeps_finish hsame control _
      · split
        · exact keeps_display hsame control _ _
        · split
          · exact keeps_complain hsame control _ _
          · exact keeps_finish hsame control _
  | measuring path =>
      obtain rfl : control = none := by
        by_contra hheld
        exact absurd (horderly hheld) Bool.false_ne_true
      simp only [resume, measured]
      split
      · exact keeps_complain hsame none _ _
      · split
        · exact keeps_preview c path _
        · exact keeps_finish hsame none _
  | reading =>
      cases o with
      | ok content => exact keeps_display hsame control _ _
      | error why => exact keeps_complain hsame control _ _
  | changing =>
      cases o with
      | ok v =>
          exact keeps_follow hsame control (.changed (.ok v)) (fun _ => rfl) c.navigation.refresh
      | error why => exact keeps_complain hsame control _ _
  | calling => exact keeps_finish hsame control (.ok (.outcome o))
  | uploading outcomes failure => exact keeps_gather hsame control _ _ _

theorem keeps_change (c : Console) (ch : Change) {control : Option String}
    (henabled : ∀ name ∈ control, c.isEnabled name = true) :
    Keeps ((c.register control).disable control) control (change c ch control) := by
  have hfree : ∀ name, (c.register control).isEnabled name =
      (((c.register control).disable control).isEnabled name || control == some name) := by
    intro name
    by_cases hheld : control = some name
    · simp [hheld, henabled name hheld]
    · have hother : (control == some name) = false := beq_eq_false_iff_ne.mpr hheld
      simp [bne, hother]
  unfold change
  dsimp only
  split
  · exact .waits rfl (fun _ => rfl) fun _ => rfl
  · exact .finishes hfree
  · exact .aborts hfree

theorem keeps_openEntry (c : Console) (path kind : String) :
    Keeps c none (openEntry c path kind) := by
  have hselected (path name : Option String) : Spares c (c.select path name) := .refl c
  unfold openEntry
  split
  · exact keeps_follow (.refl c) none .entered (fun h => absurd rfl h) _
  · split
    · exact .waits rfl nofun (hselected _ _)
    · exact keeps_finish (.refl c) none _

theorem keeps_showBlock (c : Console) (sheet : FileSheet) (index : Int) :
    Keeps c none (showBlock c sheet index) := by
  unfold showBlock
  split
  · exact keeps_display (.refl c) none _ _
  · exact keeps_finish (.refl c) none _

theorem keeps_begin (c : Console) {action : Action}
    (henabled : ∀ name ∈ action.control?, c.isEnabled name = true) :
    Keeps ((c.register action.control?).disable action.control?) action.control?
      (begin c action) := by
  have hfollows (m : Navigation × Move) : Keeps c none (follow c none .report m) :=
    keeps_follow (.refl c) none .report (fun h => absurd rfl h) m
  have hfinishes {c' : Console} (h : Spares c c') : Keeps c none (finish c' none (.ok .nothing)) :=
    keeps_finish h none _
  cases action with
  | start => exact hfollows c.navigation.start
  | refresh => exact hfollows c.navigation.refresh
  | navigate path force => exact hfollows _
  | hashChanged fragment => exact hfollows _
  | setFragment fragment => exact hfinishes fun _ => rfl
  | select path name => exact hfinishes fun _ => rfl
  | openEntry path kind => exact keeps_openEntry c path kind
  | showBlock sheet index => exact keeps_showBlock c sheet index
  | preview path length => exact keeps_preview c path length
  | tail path => exact .waits rfl nofun (Spares.refl c)
  | change ch control => exact keeps_change c ch henabled
  | upload directory files control => exact keeps_gather (Spares.refl _) control _ none _
  | call call => exact .waits rfl nofun (Spares.refl c)
  | showError message => exact hfinishes fun _ => rfl
  | clearError => exact hfinishes fun _ => rfl

end Activity

/-! ## What holds a control in a session -/

namespace Session

open Activity (Keeps)

variable {s t : Session} {owner other : Nat} {action : Action} {name : String}

def control? (s : Session) (owner : Nat) : Option String :=
  (s.activity? owner).bind (·.control)

/-- What a step makes of its owner: it goes on and holds the control, or it has come to an end and
the control is free. -/
inductive Goes (c : Console) (control : Option String) (endings : List Ending) (owner : Nat)
    (t : Session) : Prop
  | waits {a : Activity} (hactivity : t.activity? owner = some a) (hcontrol : a.control = control)
      (horderly : a.IsOrderly) (henabled : ∀ name, t.console.isEnabled name = c.isEnabled name)
      (hendings : (t.share owner).endings = endings)
  | ends {e : Ending} (hactivity : t.activity? owner = none)
      (henabled : ∀ name, t.console.isEnabled name = (c.isEnabled name || control == some name))
      (hendings : (t.share owner).endings = endings ++ [e])

theorem endings_close (s : Session) (owner : Nat) (e : Ending) :
    ((s.close owner e).share owner).endings = (s.share owner).endings ++ [e] := by
  simp [share, close]

theorem goes_abort (s : Session) (owner : Nat) (a : Activity) (fs : List Fault) :
    Goes s.console a.control (s.share owner).endings owner (s.abort owner a fs) := by
  refine .ends (activity?_close _ owner _) (fun name => ?_) (endings_close _ owner _)
  exact Console.isEnabled_enable s.console a.control name

theorem Goes.of_spares {c c' : Console} {control : Option String} {endings : List Ending}
    (h : Goes c' control endings owner t) (hspares : Activity.Spares c c') :
    Goes c control endings owner t := by
  cases h with
  | waits hactivity hcontrol horderly henabled hendings =>
      exact .waits hactivity hcontrol horderly (fun name => (henabled name).trans (hspares name))
        hendings
  | ends hactivity henabled hendings =>
      exact .ends hactivity (fun name => by rw [henabled, hspares]) hendings

theorem Goes.of_unended {c : Console} {control : Option String} {endings : List Ending}
    (h : Goes c control endings owner t) (hunended : (t.share owner).endings = endings) :
    ∃ a, t.activity? owner = some a ∧ a.control = control := by
  cases h with
  | waits hactivity hcontrol horderly henabled hendings => exact ⟨_, hactivity, hcontrol⟩
  | ends hactivity henabled hendings => simp [hendings] at hunended

theorem Goes.of_busy {c : Console} {control : Option String} {endings : List Ending}
    (h : Goes c control endings owner t) {a : Activity} (hbusy : t.activity? owner = some a) :
    a.control = control ∧ (t.share owner).endings = endings := by
  cases h with
  | waits hactivity hcontrol horderly henabled hendings =>
      obtain rfl := Option.some.inj (hactivity.symm.trans hbusy)
      exact ⟨hcontrol, hendings⟩
  | ends hactivity henabled hendings => simp [hactivity] at hbusy

def Allows (s : Session) : Event → Prop
  | .start owner action =>
    s.activity? owner = none → ∀ name ∈ action.control?, s.console.isEnabled name = true
  | .reply .. => True

instance (s : Session) (e : Event) : Decidable (s.Allows e) :=
  match e with
  | .start owner action =>
    inferInstanceAs (Decidable (s.activity? owner = none →
      ∀ name ∈ action.control?, s.console.isEnabled name = true))
  | .reply .. => inferInstanceAs (Decidable True)

/-! ## Who holds what -/

/-- Only what changes something holds a control, no two owners hold the same one, and the controls
that are held are those that are disabled. -/
structure IsGoverned (s : Session) : Prop where
  orderly : ∀ owner a, s.activity? owner = some a → a.IsOrderly
  unique : ∀ owner other name, s.control? owner = some name → s.control? other = some name →
    owner = other
  disabled_iff : ∀ name, s.console.isEnabled name = false ↔
    ∃ owner, s.control? owner = some name

theorem isGoverned_opening (settings : Settings) (fragment : String) :
    (opening settings fragment).IsGoverned where
  orderly := nofun
  unique := nofun
  disabled_iff _ := iff_of_false Bool.noConfusion fun ⟨_, h⟩ => nomatch h

theorem control?_of_activity? {a : Activity} (h : s.activity? owner = some a) :
    s.control? owner = a.control := by
  simp [control?, h]

def HeldBesides (s : Session) (owner : Nat) (name : String) : Prop :=
  ∃ other, other ≠ owner ∧ s.control? other = some name

theorem held_iff (s : Session) (owner : Nat) (name : String) :
    (∃ other, s.control? other = some name) ↔
      s.control? owner = some name ∨ s.HeldBesides owner name := by
  constructor
  · rintro ⟨other, hother⟩
    by_cases hne : other = owner
    · exact .inl (hne ▸ hother)
    · exact .inr ⟨other, hne, hother⟩
  · rintro (hmine | ⟨other, -, hother⟩)
    · exact ⟨owner, hmine⟩
    · exact ⟨other, hother⟩

theorem IsGoverned.of_owner (h : s.IsGoverned)
    (hothers : ∀ other, other ≠ owner → t.activity? other = s.activity? other)
    (horderly : ∀ a, t.activity? owner = some a → a.IsOrderly)
    (halone : ∀ name, t.control? owner = some name → ¬ s.HeldBesides owner name)
    (hdisabled : ∀ name, t.console.isEnabled name = false ↔
      t.control? owner = some name ∨ s.HeldBesides owner name) : t.IsGoverned := by
  have hkept (other : Nat) (hne : other ≠ owner) : t.control? other = s.control? other := by
    rw [control?, hothers other hne, control?]
  have hbesides (name : String) : t.HeldBesides owner name ↔ s.HeldBesides owner name :=
    exists_congr fun other => and_congr_right fun hne => by rw [hkept other hne]
  refine ⟨fun other a ha => ?_, fun x y name hx hy => ?_, fun name => ?_⟩
  · by_cases hne : other = owner
    · exact horderly a (hne ▸ ha)
    · exact h.orderly other a ((hothers other hne).symm.trans ha)
  · by_cases hx' : x = owner <;> by_cases hy' : y = owner
    · rw [hx', hy']
    · exact absurd ((hbesides name).mp ⟨y, hy', hy⟩) (halone name (hx' ▸ hx))
    · exact absurd ((hbesides name).mp ⟨x, hx', hx⟩) (halone name (hy' ▸ hy))
    · exact h.unique x y name ((hkept x hx').symm.trans hx) ((hkept y hy').symm.trans hy)
  · rw [hdisabled, t.held_iff owner, hbesides]

theorem IsGoverned.of_goes {c : Console} {control : Option String} {endings : List Ending}
    (h : s.IsGoverned) (hgoes : Goes c control endings owner t)
    (hothers : ∀ other, other ≠ owner → t.activity? other = s.activity? other)
    (halone : ∀ name, control = some name → ¬ s.HeldBesides owner name)
    (hdisabled : ∀ name, c.isEnabled name = false ↔
      control = some name ∨ s.HeldBesides owner name) : t.IsGoverned := by
  cases hgoes with
  | @waits a hactivity hcontrol horderly henabled hendings =>
      have hheld : t.control? owner = control := (control?_of_activity? hactivity).trans hcontrol
      refine h.of_owner hothers (fun b hb => ?_) (fun name => ?_) fun name => ?_
      · exact Option.some.inj (hactivity.symm.trans hb) ▸ horderly
      · exact hheld ▸ halone name
      · rw [henabled, hdisabled, hheld]
  | ends hactivity henabled hendings =>
      have hfree : t.control? owner = none := by simp [control?, hactivity]
      refine h.of_owner hothers (fun b hb => ?_) (fun name => ?_) fun name => ?_
      · simp [hactivity] at hb
      · simp [hfree]
      · have hapart := halone name
        rw [henabled, Bool.or_eq_false_iff, hdisabled, beq_eq_false_iff_ne, hfree]
        grind

structure IsRegular (s : Session) : Prop where
  numbered : s.IsNumbered
  attended : ∀ owner, (s.share owner).IsAttended
  governed : s.IsGoverned

theorem isRegular_opening (settings : Settings) (fragment : String) :
    (opening settings fragment).IsRegular :=
  ⟨isNumbered_opening settings fragment, fun _ _ => rfl, isGoverned_opening settings fragment⟩

/-! ## Steps of an owner -/

section

variable [Client]

theorem goes_wait (s : Session) (owner : Nat) {a : Activity} (horderly : a.IsOrderly)
    (calls : List Call) :
    Goes s.console a.control (s.share owner).endings owner (s.wait owner a calls) := by
  let drafted := Draft.ofCalls s.console.settings 0 calls
  let sending := (s.setActivity owner a).sendAll owner (Draft.sort drafted.1)
  obtain ⟨hrunning, hconsole⟩ := sendAll_running (s.setActivity owner a) owner
    (Draft.sort drafted.1)
  have hendings : (sending.share owner).endings = (s.share owner).endings := by
    simp only [share, sending, ended_sendAll]
    rfl
  have hsent : Goes s.console a.control (s.share owner).endings owner sending := by
    refine .waits ?_ rfl horderly (fun name => by rw [hconsole]; rfl) hendings
    simp only [activity?, sending, hrunning]
    exact activity?_setActivity s owner a
  unfold wait
  dsimp only
  split
  · exact hsent
  · have haborted := goes_abort sending owner a drafted.2
    rw [hendings, hconsole] at haborted
    exact haborted

theorem goes_proceed {c : Console} {control : Option String} {r : Console × Progress}
    (h : Keeps c control r) (s : Session) (owner : Nat) :
    Goes c control (s.share owner).endings owner (s.proceed owner r) := by
  cases h with
  | @waits c' a calls hcontrol horderly henabled =>
      subst hcontrol
      have hwaits := goes_wait { s with console := c' } owner horderly calls
      exact hwaits.of_spares henabled
  | finishes henabled =>
      exact .ends (activity?_close _ owner _) henabled (endings_close _ owner _)
  | aborts henabled =>
      exact .ends (activity?_close _ owner _) henabled (endings_close _ owner _)

theorem goes_start (hallowed : s.Allows (.start owner action)) (hidle : s.activity? owner = none) :
    Goes ((s.console.register action.control?).disable action.control?) action.control?
      (s.share owner).endings owner (s.step (.start owner action)) := by
  rw [step_start hidle]
  exact goes_proceed (Activity.keeps_begin s.console (hallowed hidle)) s owner

theorem goes_reply {a : Activity} (hactivity : s.activity? owner = some a)
    (horderly : a.IsOrderly) {number : Nat} {r : Reply}
    (hmover : s.mover? (.reply number r) = some owner) :
    Goes s.console a.control (s.share owner).endings owner (s.step (.reply number r)) := by
  obtain ⟨p, -, -, -, hstep⟩ := step_of_mover hactivity hmover
  rw [hstep]
  cases p.draft.resolution [r] with
  | pending e => exact .waits hactivity rfl horderly (fun _ => rfl) rfl
  | returned o =>
      exact goes_proceed (Activity.keeps_resume s.console horderly p.draft.slot o)
        (s.withdraw number) owner
  | raised f => exact goes_abort (s.withdraw number) owner a [f]

theorem goes_step (h : s.IsGoverned) (hattended : (s.share owner).IsAttended) {e : Event}
    (hallowed : s.Allows e) (hmover : s.mover? e = some owner) :
    (∃ action, e = .start owner action ∧ s.activity? owner = none ∧
      (∀ name ∈ action.control?, s.console.isEnabled name = true) ∧
      Goes ((s.console.register action.control?).disable action.control?) action.control?
        (s.share owner).endings owner (s.step e)) ∨
    ∃ a, s.activity? owner = some a ∧
      Goes s.console a.control (s.share owner).endings owner (s.step e) := by
  cases e with
  | start mover action =>
      simp only [mover?] at hmover
      split at hmover
      · cases hmover
      · next hnone =>
          obtain rfl : mover = owner := Option.some.inj hmover
          have hidle : s.activity? mover = none := by simpa using hnone
          exact .inl ⟨action, rfl, hidle, hallowed hidle, goes_start hallowed hidle⟩
  | reply number r =>
      cases hactivity : s.activity? owner with
      | none =>
          exact absurd hmover (mover?_ne_of_isIdle ⟨hactivity, hattended hactivity⟩ number r)
      | some a =>
          exact .inr ⟨a, rfl, goes_reply hactivity (h.orderly owner a hactivity) hmover⟩

theorem isGoverned_step (h : s.IsRegular) {e : Event} (hallowed : s.Allows e) :
    (s.step e).IsGoverned := by
  obtain ⟨hnumbered, hattended, hgoverned⟩ := h
  have hothers {mover : Nat} (hmover : s.mover? e = some mover) (other : Nat)
      (hne : other ≠ mover) : (s.step e).activity? other = s.activity? other := by
    have hother : s.mover? e ≠ some other := by
      simpa [hmover] using hne.symm
    exact congrArg Share.activity? (share_step_of_ne hnumbered hother)
  cases hmover : s.mover? e with
  | none =>
      obtain ⟨abandoned, hstep⟩ := step_of_mover?_eq_none hmover
      rw [hstep]
      exact ⟨hgoverned.orderly, hgoverned.unique, hgoverned.disabled_iff⟩
  | some owner =>
      rcases goes_step hgoverned (hattended owner) hallowed hmover with
        ⟨action, rfl, hidle, henabled, hgoes⟩ | ⟨a, hactivity, hgoes⟩
      · have hnone : s.control? owner = none := by simp [control?, hidle]
        refine hgoverned.of_goes hgoes (hothers hmover) (fun name hmine hbesides => ?_)
          fun name => ?_
        · have hdisabled := (hgoverned.disabled_iff name).mpr
            ((s.held_iff owner name).mpr (.inr hbesides))
          simp [henabled name hmine] at hdisabled
        · rw [Console.isEnabled_disable, Console.isEnabled_register, Bool.and_eq_false_iff,
            hgoverned.disabled_iff, s.held_iff owner, hnone, bne_eq_false_iff_eq, or_comm]
          simp
      · have hmine : s.control? owner = a.control := control?_of_activity? hactivity
        rw [← hmine] at hgoes
        refine hgoverned.of_goes hgoes (hothers hmover) (fun name hheld => ?_) fun name => ?_
        · rintro ⟨other, hne, hother⟩
          exact hne (hgoverned.unique other owner name hother hheld)
        · rw [hgoverned.disabled_iff, s.held_iff owner]

theorem isRegular_step (h : s.IsRegular) {e : Event} (hallowed : s.Allows e) :
    (s.step e).IsRegular where
  numbered := isNumbered_step h.numbered e
  attended owner := isAttended_step h.numbered (h.attended owner) e
  governed := isGoverned_step h hallowed

/-! ## Whole runs -/

/-- Controls are used only while they are enabled. -/
def Respects (s : Session) : List Event → Prop
  | [] => True
  | e :: events => s.Allows e ∧ (s.step e).Respects events

instance decidableRespects (s : Session) (events : List Event) : Decidable (s.Respects events) :=
  match events with
  | [] => inferInstanceAs (Decidable True)
  | e :: events =>
    have := (s.step e).decidableRespects events
    inferInstanceAs (Decidable (s.Allows e ∧ (s.step e).Respects events))

theorem respects_append {earlier later : List Event} :
    s.Respects (earlier ++ later) ↔ s.Respects earlier ∧ (s.run earlier).Respects later := by
  induction earlier generalizing s with
  | nil => simp [Respects]
  | cons e earlier ih => simp only [List.cons_append, Respects, ih, run_cons, and_assoc]

theorem isRegular_run (h : s.IsRegular) {events : List Event} (hrespects : s.Respects events) :
    (s.run events).IsRegular := by
  induction events generalizing s with
  | nil => exact h
  | cons e events ih => exact ih (isRegular_step h hrespects.1) hrespects.2

theorem endings_step (hnumbered : s.IsNumbered) (owner : Nat) (e : Event) :
    (s.share owner).endings <+: ((s.step e).share owner).endings := by
  by_cases hmover : s.mover? e = some owner
  · obtain ⟨es, hended⟩ := ended_step hmover
    simp [share, hended]
  · rw [share_step_of_ne hnumbered hmover]

theorem endings_prefix_run (hnumbered : s.IsNumbered) (owner : Nat) (events : List Event) :
    (s.share owner).endings <+: ((s.run events).share owner).endings := by
  induction events generalizing s with
  | nil => exact List.prefix_rfl
  | cons e events ih =>
      exact (endings_step hnumbered owner e).trans (ih (isNumbered_step hnumbered e))

theorem endings_step_of_run (hnumbered : s.IsNumbered) {e : Event} {events : List Event}
    (hunended : ((s.run (e :: events)).share owner).endings = (s.share owner).endings) :
    ((s.step e).share owner).endings = (s.share owner).endings := by
  have hbefore := endings_step hnumbered owner e
  have hafter := endings_prefix_run (isNumbered_step hnumbered e) owner events
  rw [run_cons] at hunended
  exact (hbefore.eq_of_length_le (hunended ▸ hafter.length_le)).symm

/-- An owner that is idle begins with an action, and it has not come to an end since. -/
structure Pursues (s : Session) (owner : Nat) (action : Action) (later : List Event) : Prop where
  idle : s.activity? owner = none
  unended : ((s.run (.start owner action :: later)).share owner).endings = (s.share owner).endings

theorem holds_run (h : s.IsRegular) {events : List Event} (hrespects : s.Respects events)
    {a : Activity} (hactivity : s.activity? owner = some a)
    (hunended : ((s.run events).share owner).endings = (s.share owner).endings) :
    (s.run events).control? owner = a.control := by
  induction events generalizing s a with
  | nil => exact control?_of_activity? hactivity
  | cons e events ih =>
      obtain ⟨hallowed, hrest⟩ := hrespects
      have hregular := isRegular_step h hallowed
      have hsame := endings_step_of_run h.numbered hunended
      rw [run_cons] at hunended ⊢
      by_cases hmover : s.mover? e = some owner
      · rcases goes_step h.governed (h.attended owner) hallowed hmover with
          ⟨-, -, hidle, -⟩ | ⟨b, hb, hgoes⟩
        · simp [hidle] at hactivity
        · obtain rfl : a = b := Option.some.inj (hactivity.symm.trans hb)
          obtain ⟨b, hb, hcontrol⟩ := hgoes.of_unended hsame
          rw [ih hregular hrest hb (hunended.trans hsame.symm), hcontrol]
      · have hkept : (s.step e).activity? owner = some a :=
          (congrArg Share.activity? (share_step_of_ne h.numbered hmover)).trans hactivity
        exact ih hregular hrest hkept (hunended.trans hsame.symm)

theorem isAccepted_of_busy (hidle : s.activity? owner = none) {a : Activity}
    (hbusy : (s.step (.start owner action)).activity? owner = some a)
    (hcontrol : action.control? = some name) : action.IsAccepted := by
  rw [step_start hidle] at hbusy
  obtain ⟨calls, hwaiting, -⟩ := waiting_of_busy hbusy
  cases action with
  | change ch control =>
      simp only [Activity.begin, Activity.change] at hwaiting
      split at hwaiting
      · next call hcall => exact ⟨call, hcall⟩
      · cases hwaiting
      · cases hwaiting
  | upload directory files control => trivial
  | _ => cases hcontrol

/-- In the events an owner began with the control, and it has not come to an end since. -/
def UnderWay (s : Session) (owner : Nat) (name : String) (events : List Event) : Prop :=
  ∃ earlier action later, events = earlier ++ .start owner action :: later ∧
    action.control? = some name ∧ action.IsAccepted ∧ (s.run earlier).Pursues owner action later

theorem UnderWay.concat {events : List Event} (h : s.UnderWay owner name events) {e : Event}
    (hsame : ((s.run (events ++ [e])).share owner).endings =
      ((s.run events).share owner).endings) : s.UnderWay owner name (events ++ [e]) := by
  obtain ⟨earlier, action, later, rfl, hcontrol, haccepted, hpursues⟩ := h
  refine ⟨earlier, action, later ++ [e], by simp, hcontrol, haccepted, hpursues.idle, ?_⟩
  rw [run_append s earlier] at hsame
  rw [← hpursues.unended, ← hsame, ← run_append]
  simp

theorem underWay_of_held (h : s.IsRegular) (hidle : s.activity? owner = none) {events : List Event}
    (hrespects : s.Respects events) (hheld : (s.run events).control? owner = some name) :
    s.UnderWay owner name events := by
  induction events using List.reverseRec with
  | nil => simp [control?, hidle] at hheld
  | append_singleton events e ih =>
      have hrun : s.run (events ++ [e]) = (s.run events).step e := run_append s events [e]
      obtain ⟨hbefore, hallowed, -⟩ := respects_append.mp hrespects
      have hregular := isRegular_run h hbefore
      rw [hrun] at hheld
      obtain ⟨a, hactivity, hcontrol⟩ := Option.bind_eq_some_iff.mp hheld
      by_cases hmover : (s.run events).mover? e = some owner
      · rcases goes_step hregular.governed (hregular.attended owner) hallowed hmover with
          ⟨action, rfl, hnew, -, hgoes⟩ | ⟨b, hb, hgoes⟩
        · obtain ⟨hsame, hendings⟩ := hgoes.of_busy hactivity
          have hcontrol' : action.control? = some name := hsame.symm.trans hcontrol
          exact ⟨events, action, [], rfl, hcontrol',
            isAccepted_of_busy hnew hactivity hcontrol', hnew, hendings⟩
        · obtain ⟨hsame, hendings⟩ := hgoes.of_busy hactivity
          have hholds : (s.run events).control? owner = some name := by
            rw [control?_of_activity? hb, ← hsame, hcontrol]
          exact (ih hbefore hholds).concat (by rw [hrun, hendings])
      · have hshare := share_step_of_ne hregular.numbered hmover
        have hholds : (s.run events).control? owner = some name :=
          (congrArg (·.bind (·.control)) (congrArg Share.activity? hshare)).symm.trans hheld
        exact (ih hbefore hholds).concat (by rw [hrun, hshare])

/-- At every moment of a run that uses controls only while they are enabled, a control is disabled
exactly while a change or an upload that was accepted with it has not come to an end, whatever
other activities and the replies do. -/
theorem disabled_iff_under_way (settings : Settings) (fragment : String) {events : List Event}
    (hrespects : (opening settings fragment).Respects events) (name : String) :
    let first := opening settings fragment
    (first.run events).console.isEnabled name = false ↔
      ∃ earlier owner action later, events = earlier ++ .start owner action :: later ∧
        action.control? = some name ∧ action.IsAccepted ∧
        (first.run earlier).Pursues owner action later := by
  intro first
  have hfirst : first.IsRegular := isRegular_opening settings fragment
  rw [(isRegular_run hfirst hrespects).governed.disabled_iff name]
  constructor
  · rintro ⟨owner, hheld⟩
    obtain ⟨earlier, action, later, hpursues⟩ := underWay_of_held hfirst rfl hrespects hheld
    exact ⟨earlier, owner, action, later, hpursues⟩
  · rintro ⟨earlier, owner, action, later, rfl, hcontrol, -, hidle, hunended⟩
    obtain ⟨hbefore, hallowed, hlater⟩ := respects_append.mp hrespects
    have hregular := isRegular_run hfirst hbefore
    have hstarted := isRegular_step hregular hallowed
    have hsame := endings_step_of_run hregular.numbered hunended
    obtain ⟨a, hactivity, hmine⟩ := (goes_start hallowed hidle).of_unended hsame
    rw [run_cons] at hunended
    refine ⟨owner, ?_⟩
    rw [run_append, run_cons, holds_run hstarted hlater hactivity (hunended.trans hsame.symm),
      hmine, hcontrol]

end

attribute [local instance] Client.plain

theorem disabled_iff_under_way_of_unshowable_listing :
    let settings := { Settings.default with gateway := "http://nn:9870" }
    let made : Reply := .response ⟨200, "OK", [], Utf8.encode "\x7b\"boolean\":true\x7d"⟩
    let listed : Reply := .response ⟨200, "OK", [], Utf8.encode ("\x7b\"FileStatuses\":" ++
      "\x7b\"FileStatus\":[\x7b\"pathSuffix\":\"f\",\"owner\":null\x7d]\x7d\x7d")⟩
    let action : Action := .change (.makeDirectory "/" "d" none) (some "mkdir")
    let events : List Event := [.start 0 action, .start 1 (.navigate "/a" false), .reply 1 made]
    let first := opening settings ""
    first.Respects (events ++ [.reply 3 listed]) ∧
      (∃ earlier owner action later, events = earlier ++ .start owner action :: later ∧
        action.control? = some "mkdir" ∧ action.IsAccepted ∧
        (first.run earlier).Pursues owner action later) ∧
      ¬ ∃ earlier owner action later,
        events ++ [.reply 3 listed] = earlier ++ .start owner action :: later ∧
        action.control? = some "mkdir" ∧ action.IsAccepted ∧
        (first.run earlier).Pursues owner action later := by
  intro settings made listed action events first
  have hrespects : first.Respects (events ++ [.reply 3 listed]) := by decide +kernel
  have hdisabled : (first.run events).console.isEnabled "mkdir" = false := by decide +kernel
  have henabled : (first.run (events ++ [.reply 3 listed])).console.isEnabled "mkdir" ≠ false := by
    decide +kernel
  have hbefore : first.Respects events := (respects_append.mp hrespects).1
  exact ⟨hrespects, (disabled_iff_under_way settings "" hbefore "mkdir").mp hdisabled,
    fun hpursued =>
      henabled ((disabled_iff_under_way settings "" hrespects "mkdir").mpr hpursued)⟩

end Session

end HdfsBrowser
