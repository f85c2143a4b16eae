import HdfsBrowser.Proofs.Session.Standstill
import HdfsBrowser.Session.Activity

/-!
# The address and the directory

As long as nobody else sets the address, it names the directory from the first
commit on, and the fragment that navigation remembers to have published is no
other than that directory.  So a hash change to any other place is never taken
for an echo.
-/

namespace HdfsBrowser

/-- The address names the directory once a listing has committed; before that the directory is
the root.  A fragment that is remembered is both the address and the directory. -/
structure Navigation.IsMirrored (n : Navigation) : Prop where
  fragment : n.committed ≠ 0 → n.fragment = n.directory
  directory : n.committed = 0 → n.directory = Path.root
  published : ∀ fragment, n.published = some fragment →
    fragment = n.fragment ∧ fragment = n.directory

namespace Navigation

variable {n : Navigation}

theorem isMirrored_opening (fragment : String) : (opening fragment).IsMirrored where
  fragment h := absurd rfl h
  directory _ := rfl
  published _ h := by cases h

theorem IsMirrored.of_eq (h : n.IsMirrored) {n' : Navigation}
    (hcommitted : n'.committed = n.committed) (hdirectory : n'.directory = n.directory)
    (hfragment : n'.fragment = n.fragment)
    (hpublished : n'.published = n.published ∨ n'.published = none) : n'.IsMirrored where
  fragment := by
    rw [hcommitted, hdirectory, hfragment]
    exact h.fragment
  directory := by
    rw [hcommitted, hdirectory]
    exact h.directory
  published := by
    intro fragment hremembered
    rw [hdirectory, hfragment]
    rcases hpublished with hsame | hnone
    · exact h.published fragment (hsame ▸ hremembered)
    · simp [hnone] at hremembered

theorem isMirrored_navigate (h : n.IsMirrored) (path : String) (force : Bool) :
    (n.navigate path force).1.IsMirrored := by
  unfold navigate
  dsimp only
  split
  · exact h
  · exact h.of_eq rfl rfl rfl (.inl rfl)

theorem ne_empty_of_normal {path : String} (h : Path.normalize path = path) : path ≠ "" := by
  obtain ⟨rest, hrest⟩ := Path.toList_of_normal h
  rintro rfl
  simp at hrest

theorem isMirrored_start (h : n.IsMirrored) (hnormal : Path.normalize n.directory = n.directory) :
    n.start.1.IsMirrored := by
  unfold start
  dsimp only
  apply isMirrored_navigate
  split
  · next hempty =>
      -- An empty address means that nothing has committed, and then the directory is the root.
      have hnone : n.committed = 0 := by
        by_contra hcommitted
        exact ne_empty_of_normal hnormal (h.fragment hcommitted ▸ hempty)
      have hroot : Path.normalize n.fragment = Path.root := by
        rw [hempty]
        decide
      have hpublish : n.publish Path.root =
          { n with published := some Path.root, fragment := Path.root } := by
        apply if_neg
        rw [hempty]
        decide
      rw [hroot, hpublish]
      exact ⟨fun hcommitted => absurd hnone hcommitted, h.directory,
        fun fragment hremembered => by
          obtain rfl : Path.root = fragment := by simpa using hremembered
          exact ⟨rfl, (h.directory hnone).symm⟩⟩
  · exact h

theorem isMirrored_hashChanged (h : n.IsMirrored) (fragment : String) :
    (n.hashChanged fragment).1.IsMirrored := by
  unfold hashChanged
  split
  · exact h.of_eq rfl rfl rfl (.inr rfl)
  · split
    · exact h
    · apply isMirrored_navigate
      exact h.of_eq rfl rfl rfl (.inl rfl)

theorem published_enter (n : Navigation) (f : Fetch) :
    (n.enter f).published = if n.fragment = f.target then n.published else some f.target := by
  simp only [enter, publish]
  split <;> rfl

theorem isMirrored_enter (h : n.IsMirrored) {f : Fetch} (hnumber : f.number ≠ 0) :
    (n.enter f).IsMirrored := by
  have hfragment : (n.enter f).fragment = f.target := publish_fragment _ f.target
  have hcommitted : (n.enter f).committed = f.number :=
    congrArg Standing.committed (standing_publish _ f.target)
  have hdirectory : (n.enter f).directory = f.target :=
    congrArg Standing.directory (standing_publish _ f.target)
  refine ⟨fun _ => hfragment.trans hdirectory.symm, fun hzero => ?_, fun fragment hremembered => ?_⟩
  · exact absurd (hcommitted.symm.trans hzero) hnumber
  · rw [hfragment, hdirectory, and_self]
    rw [published_enter] at hremembered
    split at hremembered
    · next hsame => exact (h.published fragment hremembered).1.trans hsame
    · exact (Option.some.inj hremembered).symm

theorem hashChanged_eq (n : Navigation) (fragment : String) :
    n.hashChanged fragment =
      if n.published = some fragment then ({ n with published := none }, .stay false)
      else if n.isQuiet ∧ Path.normalize fragment = n.directory then (n, .stay false)
      else
        ({ n with
            issued := n.issued + 1
            status := .loading
            screen := { n.screen with message := .null } },
          .fetch ⟨n.issued + 1, Path.normalize fragment⟩) := by
  unfold hashChanged
  split
  · rfl
  · by_cases hthere : n.isQuiet ∧ Path.normalize fragment = n.directory
    · simp [hthere]
    · have haway : Navigation.isAt { n with screen := n.screen.clearError }
          (Path.normalize fragment) = false := by
        simp only [isAt, Bool.and_assoc, Bool.and_eq_false_iff, beq_eq_false_iff_ne]
        right
        by_cases hquiet : n.isQuiet
        · exact .inr fun hsame => hthere ⟨hquiet, hsame⟩
        · exact .inl (by simpa [isQuiet] using hquiet)
      have hnot : (n.isQuiet && Path.normalize fragment == n.directory) = false := by
        simpa using hthere
      simp only [hnot, hthere, navigate, haway, Bool.false_eq_true, ↓reduceIte, Bool.and_false]
      rfl

theorem hashChanged_of_ne (h : n.IsMirrored) (hnormal : Path.normalize n.directory = n.directory)
    {fragment : String} (hne : Path.normalize fragment ≠ n.directory) :
    n.hashChanged fragment =
      ({ n with
          issued := n.issued + 1
          status := .loading
          screen := { n.screen with message := .null } },
        .fetch ⟨n.issued + 1, Path.normalize fragment⟩) := by
  have hforeign : n.published ≠ some fragment := by
    intro hremembered
    obtain ⟨-, rfl⟩ := h.published fragment hremembered
    exact hne hnormal
  rw [hashChanged_eq, if_neg hforeign, if_neg fun hthere => hne hthere.2]

end Navigation

namespace Journey

variable {j : Journey}

theorem isMirrored_answer (h : j.place.IsMirrored) (horderly : j.IsOrderly) (number : Nat)
    (o : Outcome) : (j.answer number o).place.IsMirrored := by
  cases hcommit : j.commit? (.answer number o) with
  | none =>
      rcases answer_of_no_commit hcommit with hsame | ⟨f, -, -, message, hfail⟩
      · rw [hsame]
        exact h
      · rw [hfail]
        exact h.of_eq rfl rfl rfl (.inl rfl)
  | some f =>
      obtain ⟨hf, hle, l, hplace⟩ := step_of_commit hcommit
      have hlt : j.place.settled < f.number := horderly.settled_lt hf hle
      rw [step] at hplace
      rw [hplace]
      exact (Navigation.isMirrored_enter h (by omega)).of_eq rfl rfl rfl (.inl rfl)

theorem isMirrored_step (h : j.place.IsMirrored) (horderly : j.IsOrderly) {e : Event}
    (hown : ∀ fragment, e ≠ .setFragment fragment) : (j.step e).place.IsMirrored := by
  cases e with
  | start =>
      rw [step, place_follow]
      exact Navigation.isMirrored_start h horderly.directory_normal
  | refresh =>
      rw [step, place_follow]
      exact Navigation.isMirrored_navigate h _ true
  | navigate path force =>
      rw [step, place_follow]
      exact Navigation.isMirrored_navigate h path force
  | hashChanged fragment =>
      rw [step, place_follow]
      exact Navigation.isMirrored_hashChanged h fragment
  | select path name => exact h.of_eq rfl rfl rfl (.inl rfl)
  | answer number o => exact isMirrored_answer h horderly number o
  | lose number => exact h
  | setFragment fragment => exact absurd rfl (hown fragment)
  | setScreen screen => exact h.of_eq rfl rfl rfl (.inl rfl)

theorem isMirrored_run (h : j.place.IsMirrored) (horderly : j.IsOrderly) {events : List Event}
    (hown : ∀ fragment, .setFragment fragment ∉ events) : (j.run events).place.IsMirrored := by
  induction events generalizing j with
  | nil => exact h
  | cons e events ih =>
      simp only [List.mem_cons, not_or] at hown
      refine ih (isMirrored_step h horderly fun fragment heq => ?_) (isOrderly_step horderly e)
        fun fragment => (hown fragment).2
      exact (hown fragment).1 heq.symm

theorem committed_ne_zero_step (horderly : j.IsOrderly) (e : Event)
    (h : j.place.committed ≠ 0 ∨ j.commit? e ≠ none) : (j.step e).place.committed ≠ 0 := by
  cases hcommit : j.commit? e with
  | none =>
      rw [(stands_step hcommit).committed]
      simpa [hcommit] using h
  | some f =>
      obtain ⟨hf, hle, -⟩ := step_of_commit hcommit
      have hlt : j.place.settled < f.number := horderly.settled_lt hf hle
      rw [(standing_step_of_commit hcommit).1]
      omega

theorem committed_ne_zero_of_commits (horderly : j.IsOrderly) {events : List Event}
    (h : j.place.committed ≠ 0 ∨ j.commits events ≠ []) : (j.run events).place.committed ≠ 0 := by
  induction events generalizing j with
  | nil => simpa [commits] using h
  | cons e events ih =>
      rw [run_cons]
      apply ih (isOrderly_step horderly e)
      by_cases hnow : j.place.committed ≠ 0 ∨ j.commit? e ≠ none
      · exact .inl (committed_ne_zero_step horderly e hnow)
      · simp only [not_or, not_not] at hnow
        refine .inr ?_
        simpa [commits, hnow.1, hnow.2] using h

/-- As long as nobody else sets the address, it names the directory from the first commit on, and
a fragment that is remembered is the directory.  A hash change to any other place clears the
message and asks for a listing of that place, and for nothing else. -/
theorem address_follows_directory (fragment : String) {events : List Event}
    (hown : ∀ other, .setFragment other ∉ events) :
    let j := (opening fragment).run events
    ((opening fragment).commits events ≠ [] → j.place.fragment = j.place.directory) ∧
    (j.place.published = none ∨ j.place.published = some j.place.directory) ∧
    ∀ other, Path.normalize other ≠ j.place.directory →
      j.step (.hashChanged other) =
        ⟨{ j.place with
            issued := j.place.issued + 1
            status := .loading
            screen := { j.place.screen with message := .null } },
          j.ahead ++ [⟨j.place.issued + 1, Path.normalize other⟩]⟩ ∧
      ∀ c : Console, c.navigation = j.place →
        (Activity.begin c (.hashChanged other)).2 =
          .waiting ⟨none, .listing ⟨j.place.issued + 1, Path.normalize other⟩ .report⟩
            [.listing (Path.normalize other)] := by
  intro j
  have horderly : j.IsOrderly := isOrderly_run (isOrderly_opening fragment) events
  have hmirrored : j.place.IsMirrored :=
    isMirrored_run (Navigation.isMirrored_opening fragment) (isOrderly_opening fragment) hown
  refine ⟨fun hcommits => ?_, ?_, fun other hne => ?_⟩
  · exact hmirrored.fragment (committed_ne_zero_of_commits (isOrderly_opening fragment)
      (.inr hcommits))
  · cases hpublished : j.place.published with
    | none => exact .inl rfl
    | some remembered =>
        obtain ⟨-, rfl⟩ := hmirrored.published remembered hpublished
        exact .inr rfl
  · have hasks := Navigation.hashChanged_of_ne hmirrored horderly.directory_normal hne
    constructor
    · rw [step, hasks]
      rfl
    · intro c hc
      rw [Activity.begin, hc, hasks]
      rfl

theorem address_follows_directory_of_bookmark :
    let events : List Event := [.start, .answer 1 (.ok (.object [])), .navigate "/a/" false]
    let j := (opening "/user").run events
    (∀ other, .setFragment other ∉ events) ∧ (opening "/user").commits events ≠ [] ∧
      j.place.fragment = j.place.directory ∧ Path.normalize "/b/" ≠ j.place.directory ∧
      (j.step (.hashChanged "/b/")).ahead = [⟨2, "/a"⟩, ⟨3, "/b"⟩] := by
  intro events j
  have hown : ∀ other, .setFragment other ∉ events := by simp [events]
  have hcommits : (opening "/user").commits events ≠ [] := by decide
  have hne : Path.normalize "/b/" ≠ j.place.directory := by decide
  obtain ⟨hfollows, -, hchange⟩ := address_follows_directory "/user" hown
  refine ⟨hown, hcommits, hfollows hcommits, hne, ?_⟩
  rw [(hchange "/b/" hne).1]
  decide

end Journey

end HdfsBrowser
