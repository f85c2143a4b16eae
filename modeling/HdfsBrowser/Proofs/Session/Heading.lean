import HdfsBrowser.Proofs.Session.Address

/-!
# Where a journey is heading

When all listings are shown, the newest one decides where the journey ends.
A refresh is a listing like any other: it is numbered when it is asked for, and
its target is the directory of that moment.  So it overtakes a wish of the user
that is still on its way, and takes the user back.
-/

namespace HdfsBrowser

namespace Journey

/-- The place that the user asks for.  A hash change that is taken for an echo asks for nothing. -/
def wish? (j : Journey) : Event → Option String
  | .start => some (Path.normalize j.place.fragment)
  | .navigate path _ => some (Path.normalize path)
  | .hashChanged fragment =>
    if j.place.published = some fragment then none else some (Path.normalize fragment)
  | _ => none

def succeeds (j : Journey) : Event → Bool
  | .answer number o =>
    (j.fetch? number).all fun f =>
      match f.verdict o with
      | .shows _ => true
      | .complains _ | .breaks _ => false
  | .lose _ => false
  | _ => true

def allSucceed (j : Journey) : List Event → Bool
  | [] => true
  | e :: events => j.succeeds e && (j.step e).allSucceed events

end Journey

open Journey (Event)

structure Voyage where
  journey : Journey
  /-- What the user asked for last. -/
  goal : String
  /-- What was asked for last, be it by the user or by a refresh. -/
  heading : String
  deriving DecidableEq, Repr

namespace Voyage

def opening (fragment : String) : Voyage := ⟨.opening fragment, Path.root, Path.root⟩

def step (v : Voyage) (e : Event) : Voyage where
  journey := v.journey.step e
  goal := (v.journey.wish? e).getD v.goal
  heading :=
    match e with
    | .refresh => v.journey.place.directory
    | e => (v.journey.wish? e).getD v.heading

def run (v : Voyage) (events : List Event) : Voyage := events.foldl step v

@[simp] theorem run_nil (v : Voyage) : v.run [] = v := rfl

@[simp] theorem run_cons (v : Voyage) (e : Event) (events : List Event) :
    v.run (e :: events) = (v.step e).run events := rfl

theorem run_append (v : Voyage) (before after : List Event) :
    v.run (before ++ after) = (v.run before).run after := List.foldl_append

def RefreshesAtGoal (v : Voyage) : List Event → Prop
  | [] => True
  | e :: events =>
    (e = .refresh → v.journey.place.directory = v.goal) ∧ (v.step e).RefreshesAtGoal events

theorem heading_step_of_goal {v : Voyage} (h : v.heading = v.goal) {e : Event}
    (hrefresh : e = .refresh → v.journey.place.directory = v.goal) :
    (v.step e).heading = (v.step e).goal := by
  cases e with
  | refresh => exact hrefresh rfl
  | _ => simp only [step, h]

theorem heading_run_of_goal {v : Voyage} (h : v.heading = v.goal) {events : List Event}
    (hrefresh : v.RefreshesAtGoal events) : (v.run events).heading = (v.run events).goal := by
  induction events generalizing v with
  | nil => exact h
  | cons e events ih => exact ih (heading_step_of_goal h hrefresh.1) hrefresh.2

end Voyage

/-! ## Wishes -/

namespace Navigation

/-- A wish to be in a directory asks for its listing, or the user is there already. -/
inductive Heads (n : Navigation) (target : String) : Navigation × Move → Prop
  | fetch {m : Navigation} {f : Fetch} (hnumber : f.number = m.issued)
      (htarget : f.target = target) :
      Heads n target (m, .fetch f)
  | stay {m : Navigation} {moved : Bool} (hstanding : m.standing = n.standing)
      (hquiet : n.settled = n.issued) (hthere : n.directory = target) :
      Heads n target (m, .stay moved)

variable (n : Navigation)

theorem heads_navigate (path : String) (force : Bool) :
    n.Heads (Path.normalize path) (n.navigate path force) := by
  unfold navigate
  dsimp only
  split
  · next hthere =>
      simp only [isAt, isQuiet, Bool.and_eq_true, beq_iff_eq] at hthere
      exact .stay rfl hthere.2.1.2 hthere.2.2.symm
  · exact .fetch rfl rfl

theorem heads_start : n.Heads (Path.normalize n.fragment) n.start :=
  .fetch rfl (Path.normalize_normalize n.fragment)

theorem heads_refresh (hnormal : Path.normalize n.directory = n.directory) :
    n.Heads n.directory n.refresh :=
  .fetch rfl hnormal

theorem heads_hashChanged {fragment : String} (hforeign : n.published ≠ some fragment) :
    n.Heads (Path.normalize fragment) (n.hashChanged fragment) := by
  rw [hashChanged_eq, if_neg hforeign]
  split
  · next hthere => exact .stay rfl (by simpa [isQuiet] using hthere.1) hthere.2.symm
  · exact .fetch rfl rfl

end Navigation

/-! ## The newest listing -/

namespace Journey

variable {j : Journey}

def IsBoundFor (j : Journey) (target : String) : Prop :=
  (∃ f ∈ j.ahead, f.number = j.place.issued ∧ f.target = target) ∨
    j.place.settled = j.place.issued ∧ j.place.directory = target

theorem isBoundFor_follow {target : String} {m : Navigation × Move}
    (h : j.place.Heads target m) : (j.follow m).IsBoundFor target := by
  cases h with
  | @fetch n f hnumber htarget =>
      exact .inl ⟨f, List.mem_append_right j.ahead List.mem_cons_self, hnumber, htarget⟩
  | @stay n moved hstanding hquiet hthere =>
      have hsettled : n.settled = j.place.settled := congrArg Standing.settled hstanding
      have hissued : n.issued = j.place.issued := congrArg Standing.issued hstanding
      have hdirectory : n.directory = j.place.directory := congrArg Standing.directory hstanding
      refine .inr ⟨?_, hdirectory.trans hthere⟩
      exact hsettled.trans (hquiet.trans hissued.symm)

theorem commit?_of_shows {f : Fetch} (hfetch : j.fetch? f.number = some f)
    (hfresh : j.place.settled ≤ f.number) {o : Outcome} {l : Listing}
    (hshows : f.verdict o = .shows l) : j.commit? (.answer f.number o) = some f := by
  simp only [commit?, hfetch, hshows]
  exact if_neg (Nat.not_lt.mpr hfresh)

theorem answer_place_of_late {f : Fetch} (hfetch : j.fetch? f.number = some f)
    (hlate : f.number < j.place.settled) (o : Outcome) :
    (j.answer f.number o).place = j.place := by
  rw [answer_of_fetch? hfetch]
  dsimp only
  rw [Navigation.settle_fst, if_pos hlate]

theorem exists_shows_of_succeeds {number : Nat} {o : Outcome} {f : Fetch}
    (h : j.succeeds (.answer number o) = true) (hfetch : j.fetch? number = some f) :
    ∃ l, f.verdict o = .shows l := by
  simp only [succeeds, hfetch, Option.all_some] at h
  cases hverdict : f.verdict o with
  | shows l => exact ⟨l, rfl⟩
  | complains message => simp [hverdict] at h
  | breaks why => simp [hverdict] at h

theorem isBoundFor_answer (horderly : j.IsOrderly) {target : String} (h : j.IsBoundFor target)
    {number : Nat} {o : Outcome} (hsucceeds : j.succeeds (.answer number o) = true) :
    (j.answer number o).IsBoundFor target := by
  cases hfetch : j.fetch? number with
  | none =>
      rw [answer_of_none hfetch]
      exact h
  | some g =>
      obtain ⟨hg, rfl⟩ := mem_of_fetch? hfetch
      rcases h with ⟨f, hf, hnewest, htarget⟩ | ⟨hsettled, hthere⟩
      · by_cases hsame : f.number = g.number
        · obtain rfl : g = f := by
            have hf' := fetch?_of_mem horderly hf
            rw [hsame, hfetch] at hf'
            exact Option.some.inj hf'
          obtain ⟨l, hshows⟩ := exists_shows_of_succeeds hsucceeds hfetch
          have hfresh : j.place.settled ≤ g.number := hnewest ▸ horderly.settled_le
          obtain ⟨-, hsettled, hdirectory⟩ :=
            standing_step_of_commit (commit?_of_shows hfetch hfresh hshows)
          refine .inr ⟨?_, hdirectory.trans htarget⟩
          rw [answer_issued]
          exact hsettled.trans hnewest
        · refine .inl ⟨f, mem_ahead_answer hf hsame o, ?_, htarget⟩
          rwa [answer_issued]
      · have hlate : g.number < j.place.settled :=
          Nat.lt_of_le_of_ne (hsettled ▸ horderly.number_le g hg) (horderly.number_ne g hg)
        have hplace := answer_place_of_late hfetch hlate o
        refine .inr ?_
        rw [hplace]
        exact ⟨hsettled, hthere⟩

end Journey

namespace Voyage

variable {v : Voyage}

structure IsOnCourse (v : Voyage) : Prop where
  orderly : v.journey.IsOrderly
  bound : v.journey.IsBoundFor v.heading

theorem isOnCourse_opening (fragment : String) : (opening fragment).IsOnCourse where
  orderly := Journey.isOrderly_opening fragment
  bound := .inr ⟨rfl, rfl⟩

theorem isOnCourse_step (h : v.IsOnCourse) {e : Event} (hsucceeds : v.journey.succeeds e = true) :
    (v.step e).IsOnCourse where
  orderly := Journey.isOrderly_step h.orderly e
  bound := by
    cases e with
    | start => exact Journey.isBoundFor_follow v.journey.place.heads_start
    | refresh =>
        apply Journey.isBoundFor_follow
        exact v.journey.place.heads_refresh h.orderly.directory_normal
    | navigate path force =>
        exact Journey.isBoundFor_follow (v.journey.place.heads_navigate path force)
    | hashChanged fragment =>
        by_cases hecho : v.journey.place.published = some fragment
        · have hheading : (v.step (.hashChanged fragment)).heading = v.heading := by
            simp [step, Journey.wish?, hecho]
          have hjourney : (v.step (.hashChanged fragment)).journey =
              ⟨{ v.journey.place with published := none }, v.journey.ahead⟩ := by
            simp only [step, Journey.step, Navigation.hashChanged_eq, if_pos hecho]
            rfl
          rw [hheading, hjourney]
          exact h.bound
        · have hheading : (v.step (.hashChanged fragment)).heading = Path.normalize fragment := by
            simp [step, Journey.wish?, hecho]
          rw [hheading]
          exact Journey.isBoundFor_follow (v.journey.place.heads_hashChanged hecho)
    | select path name => exact h.bound
    | answer number o => exact Journey.isBoundFor_answer h.orderly h.bound hsucceeds
    | lose number => simp [Journey.succeeds] at hsucceeds
    | setFragment fragment => exact h.bound
    | setScreen screen => exact h.bound

theorem isOnCourse_run (h : v.IsOnCourse) {events : List Event}
    (hsucceed : v.journey.allSucceed events = true) : (v.run events).IsOnCourse := by
  induction events generalizing v with
  | nil => exact h
  | cons e events ih =>
      simp only [Journey.allSucceed, Bool.and_eq_true] at hsucceed
      exact ih (isOnCourse_step h hsucceed.1) hsucceed.2

theorem directory_eq_heading (h : v.IsOnCourse) (harrived : v.journey.ahead = []) :
    v.journey.place.directory = v.heading := by
  rcases h.bound with ⟨f, hf, -⟩ | ⟨-, hthere⟩
  · simp [harrived] at hf
  · exact hthere

/-- When every answer succeeds, the user ends in the directory that was asked for last, and that is
the goal if from some moment on at which the two were the same every refresh is asked for at the
goal.  Asking for a refresh moves nothing.  A listing that commits takes the user to its target,
drops those that were asked for before it and none that were asked for after it. -/
theorem ends_at_heading (fragment : String) {events : List Event}
    (hsucceed : (Journey.opening fragment).allSucceed events = true) :
    let v := (opening fragment).run events
    let j := v.journey
    (j.ahead = [] → j.place.directory = v.heading) ∧
    (∀ before after, events = before ++ after →
      let w := (opening fragment).run before
      w.heading = w.goal → w.RefreshesAtGoal after → v.heading = v.goal) ∧
    j.step .refresh =
      ⟨{ j.place with issued := j.place.issued + 1, status := .loading },
        j.ahead ++ [⟨j.place.issued + 1, j.place.directory⟩]⟩ ∧
    ∀ f ∈ j.ahead, j.place.settled ≤ f.number → ∀ o l, f.verdict o = .shows l →
      let k := j.step (.answer f.number o)
      k.place.directory = f.target ∧
      ∀ g ∈ j.ahead,
        (g.number < f.number → ∀ o', (k.step (.answer g.number o')).place = k.place) ∧
        (f.number < g.number → ∀ o' l', g.verdict o' = .shows l' →
          (k.step (.answer g.number o')).place.directory = g.target) := by
  intro v j
  have hcourse : v.IsOnCourse := isOnCourse_run (isOnCourse_opening fragment) hsucceed
  have horderly : j.IsOrderly := hcourse.orderly
  refine ⟨directory_eq_heading hcourse, fun before after heq hgoal hrefresh => ?_, ?_,
    fun f hf hfresh o l hshows => ?_⟩
  · have hrun : v = ((opening fragment).run before).run after := by
      rw [← run_append, ← heq]
    rw [hrun]
    exact heading_run_of_goal hgoal hrefresh
  · have hnormal : Path.normalize j.place.directory = j.place.directory :=
      horderly.directory_normal
    simp only [Journey.step, Navigation.refresh, Navigation.navigate, hnormal]
    rfl
  · have hcommit := Journey.commit?_of_shows (Journey.fetch?_of_mem horderly hf) hfresh hshows
    obtain ⟨-, hsettled, hdirectory⟩ := Journey.standing_step_of_commit hcommit
    refine ⟨hdirectory, fun g hg => ⟨fun holder o' => ?_, fun hnewer o' l' hshows' => ?_⟩⟩
    all_goals
      have hother : (j.step (.answer f.number o)).fetch? g.number = some g := by
        rw [Journey.step, Journey.fetch?_answer (by omega) o]
        exact Journey.fetch?_of_mem horderly hg
    · have hlate : g.number < (j.step (.answer f.number o)).place.settled := by omega
      exact Journey.answer_place_of_late hother hlate o'
    · have hfresh' : (j.step (.answer f.number o)).place.settled ≤ g.number := by omega
      exact (Journey.standing_step_of_commit
        (Journey.commit?_of_shows hother hfresh' hshows')).2.2

theorem ends_at_heading_of_detour :
    let events : List Event := [.navigate "/a" false, .answer 1 (.ok (.object [])), .refresh,
      .navigate "/b" false, .answer 3 (.ok (.object [])), .answer 2 (.ok (.object []))]
    let v := (opening "").run events
    (Journey.opening "").allSucceed events = true ∧ v.journey.ahead = [] ∧ v.goal = "/b" ∧
      v.journey.place.directory = "/b" := by
  intro events v
  have hsucceed : (Journey.opening "").allSucceed events = true := by decide
  have harrived : v.journey.ahead = [] := by decide
  obtain ⟨hends, -⟩ := ends_at_heading "" hsucceed
  exact ⟨hsucceed, harrived, by decide, hends harrived⟩

/-- The user enters a directory, and the refresh that was asked for on the way leads back out.  A
hash change back to the directory that is still remembered counts as its echo, so the user goes on
to the place that was asked for before it. -/
theorem refresh_overtakes_wish :
    (¬ ∀ events : List Event, (Journey.opening "").allSucceed events = true →
      let v := (opening "").run events
      v.journey.ahead = [] → v.journey.place.directory = v.goal) ∧
    let events : List Event := [.navigate "/a" false, .answer 1 (.ok (.object [])),
      .navigate "/b" false, .hashChanged "/a", .answer 2 (.ok (.object []))]
    let v := (opening "").run events
    (Journey.opening "").allSucceed events = true ∧ v.journey.ahead = [] ∧
      v.journey.place.directory = "/b" := by
  refine ⟨fun h => ?_, by decide, by decide, by decide⟩
  let events : List Event := [.navigate "/a" false, .refresh,
    .answer 1 (.ok (.object [])), .answer 2 (.ok (.object []))]
  have hback := h events (by decide) (by decide)
  revert hback
  decide

end Voyage

end HdfsBrowser
