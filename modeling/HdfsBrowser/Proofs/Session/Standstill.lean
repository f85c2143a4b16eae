import HdfsBrowser.Proofs.Session.Overtaking

/-!
# Where navigation stands still

An answer that is out of date leaves everything as it was, and a listing that
fails leaves everything but the settled counter, the message and the status.
So navigation moves only when a listing commits, and the listings that commit
over a run do so in the order in which they were asked for.
-/

namespace HdfsBrowser

/-- The answer holds no listing: the call failed, or its payload was rejected. -/
def Fetch.Fails (f : Fetch) (o : Outcome) : Prop :=
  ∀ payload l, o = .ok payload → Listing.ofPayload f.target payload ≠ .ok l

theorem Fetch.fails_iff (f : Fetch) (o : Outcome) : f.Fails o ↔ ∀ l, f.verdict o ≠ .shows l := by
  unfold Fails verdict
  cases o with
  | error why => simp
  | ok payload =>
      dsimp only
      constructor
      · intro h
        cases hlisting : Listing.ofPayload f.target payload with
        | ok l => exact absurd hlisting (h payload l rfl)
        | error why => cases hmalformed : why.isMalformed <;> simp [hmalformed]
      · rintro h given l ⟨⟩ hlisting
        exact h l (by rw [hlisting])

namespace Navigation

/-! ## The selection -/

def selection (n : Navigation) : Option String × Option String := (n.selectedPath, n.selectedName)

@[simp] theorem selection_publish (n : Navigation) (directory : String) :
    (n.publish directory).selection = n.selection := by
  unfold publish
  split <;> rfl

theorem selection_navigate (n : Navigation) (path : String) (force : Bool) :
    (n.navigate path force).1.selection = n.selection := by
  unfold navigate
  dsimp only
  split <;> rfl

theorem selection_start (n : Navigation) : n.start.1.selection = n.selection := by
  unfold start
  dsimp only
  rw [selection_navigate]
  split
  · exact selection_publish n _
  · rfl

theorem selection_hashChanged (n : Navigation) (fragment : String) :
    (n.hashChanged fragment).1.selection = n.selection := by
  unfold hashChanged
  split
  · rfl
  · split
    · rfl
    · exact selection_navigate _ fragment false

/-! ## Settling -/

theorem Leads.stays {n : Navigation} {m : Navigation × Move} (h : Leads n m) :
    m.1.directory = n.directory ∧ m.1.committed = n.committed ∧ m.1.settled = n.settled := by
  cases h with
  | stay hstanding =>
      exact ⟨congrArg Standing.directory hstanding, congrArg Standing.committed hstanding,
        congrArg Standing.settled hstanding⟩
  | fetch hnumber htarget hstanding =>
      exact ⟨congrArg Standing.directory hstanding, congrArg Standing.committed hstanding,
        congrArg Standing.settled hstanding⟩

theorem heed_settled_of_not_shows (n : Navigation) (f : Fetch) {v : Verdict}
    (h : ∀ l, v ≠ .shows l) : ∃ settled status message written,
      n.heed f v =
        { n with settled, status, screen := { n.screen with message, written } } ∧
      (f.number ≠ n.issued → status = n.status) := by
  cases v with
  | shows l => exact absurd rfl (h l)
  | complains message =>
      exact ⟨f.number, _, message, _, rfl, fun hne => if_neg hne⟩
  | breaks why => exact ⟨n.settled, n.status, n.screen.message, n.screen.written, rfl, fun _ => rfl⟩

end Navigation

/-! ## Commits -/

namespace Journey

variable {j : Journey}

def commit? (j : Journey) : Event → Option Fetch
  | .answer number o =>
    match j.fetch? number with
    | none => none
    | some f =>
      match f.verdict o with
      | .shows _ => if f.number < j.place.settled then none else some f
      | .complains _ | .breaks _ => none
  | _ => none

def commits (j : Journey) : List Event → List Nat
  | [] => []
  | e :: events => ((j.commit? e).map (·.number)).toList ++ (j.step e).commits events

theorem step_of_commit {e : Event} {f : Fetch} (h : j.commit? e = some f) :
    f ∈ j.ahead ∧ j.place.settled ≤ f.number ∧
      ∃ l, (j.step e).place = (j.place.commit f l).1 := by
  cases e with
  | answer number o =>
      simp only [commit?] at h
      cases hfetch : j.fetch? number with
      | none => simp [hfetch] at h
      | some g =>
          cases hverdict : g.verdict o with
          | shows l =>
              simp only [hfetch, hverdict] at h
              split at h
              · cases h
              · next hfresh =>
                  obtain rfl : g = f := by simpa using h
                  refine ⟨(mem_of_fetch? hfetch).1, Nat.le_of_not_lt hfresh, l, ?_⟩
                  rw [step, answer_of_fetch? hfetch, Navigation.settle_fst, if_neg hfresh, hverdict]
                  rfl
          | complains message => simp [hfetch, hverdict] at h
          | breaks why => simp [hfetch, hverdict] at h
  | _ => cases h

theorem answer_of_no_commit {number : Nat} {o : Outcome}
    (h : j.commit? (.answer number o) = none) :
    (j.answer number o).place = j.place ∨
      ∃ f ∈ j.ahead, j.place.settled ≤ f.number ∧
        ∃ message, (j.answer number o).place = j.place.fail f message := by
  cases hfetch : j.fetch? number with
  | none => exact .inl (by rw [answer_of_none hfetch])
  | some f =>
      simp only [commit?, hfetch] at h
      rw [answer_of_fetch? hfetch]
      dsimp only
      rw [Navigation.settle_fst]
      split
      · exact .inl rfl
      · next hfresh =>
          cases hverdict : f.verdict o with
          | shows l => simp [hverdict, hfresh] at h
          | complains message =>
              exact .inr ⟨f, (mem_of_fetch? hfetch).1, Nat.le_of_not_lt hfresh, message, rfl⟩
          | breaks why => exact .inl rfl

/-- What an event leaves as it was when it commits nothing. -/
structure Stands (n n' : Navigation) : Prop where
  directory : n'.directory = n.directory
  committed : n'.committed = n.committed
  settled_le : n.settled ≤ n'.settled

theorem Stands.refl (n : Navigation) : Stands n n := ⟨rfl, rfl, Nat.le_refl _⟩

theorem stands_follow {m : Navigation × Move} (h : j.place.Leads m) :
    Stands j.place (j.follow m).place := by
  obtain ⟨hdirectory, hcommitted, hsettled⟩ := h.stays
  obtain ⟨n, move⟩ := m
  cases move with
  | stay moved => exact ⟨hdirectory, hcommitted, Nat.le_of_eq hsettled.symm⟩
  | fetch f => exact ⟨hdirectory, hcommitted, Nat.le_of_eq hsettled.symm⟩

theorem stands_step {e : Event} (h : j.commit? e = none) : Stands j.place (j.step e).place := by
  cases e with
  | start => exact stands_follow j.place.leads_start
  | refresh => exact stands_follow j.place.leads_refresh
  | navigate path force => exact stands_follow (j.place.leads_navigate path force)
  | hashChanged fragment => exact stands_follow (j.place.leads_hashChanged fragment)
  | answer number o =>
      rw [step]
      rcases answer_of_no_commit h with hsame | ⟨f, -, hle, message, hfail⟩
      · rw [hsame]
        exact .refl _
      · rw [hfail]
        exact ⟨rfl, rfl, hle⟩
  | select path name => exact ⟨rfl, rfl, Nat.le_refl _⟩
  | lose number => exact .refl _
  | setFragment fragment => exact ⟨rfl, rfl, Nat.le_refl _⟩
  | setScreen screen => exact ⟨rfl, rfl, Nat.le_refl _⟩

theorem place_follow (j : Journey) (m : Navigation × Move) : (j.follow m).place = m.1 := by
  obtain ⟨n, move⟩ := m
  cases move <;> rfl

theorem selection_step {e : Event} (h : j.commit? e = none)
    (hselect : ∀ path name, e ≠ .select path name) :
    (j.step e).place.selection = j.place.selection := by
  cases e with
  | start =>
      rw [step, place_follow]
      exact j.place.selection_start
  | refresh =>
      rw [step, place_follow]
      exact j.place.selection_navigate _ true
  | navigate path force =>
      rw [step, place_follow]
      exact j.place.selection_navigate path force
  | hashChanged fragment =>
      rw [step, place_follow]
      exact j.place.selection_hashChanged fragment
  | answer number o =>
      rw [step]
      rcases answer_of_no_commit h with hsame | ⟨f, -, -, message, hfail⟩
      · rw [hsame]
      · rw [hfail]
        rfl
  | select path name => exact absurd rfl (hselect path name)
  | lose number => rfl
  | setFragment fragment => rfl
  | setScreen screen => rfl

theorem standing_step_of_commit {e : Event} {f : Fetch} (h : j.commit? e = some f) :
    (j.step e).place.committed = f.number ∧ (j.step e).place.settled = f.number ∧
      (j.step e).place.directory = f.target := by
  obtain ⟨-, -, l, hplace⟩ := step_of_commit h
  have hstanding := j.place.standing_commit f l
  rw [hplace]
  exact ⟨congrArg Standing.committed hstanding, congrArg Standing.settled hstanding,
    congrArg Standing.directory hstanding⟩

theorem settled_lt_of_mem_commits (h : j.IsOrderly) {events : List Event} {number : Nat}
    (hmem : number ∈ j.commits events) : j.place.settled < number := by
  -- the settled counter never falls, and a commit raises it to its own number
  induction events generalizing j with
  | nil => cases hmem
  | cons e events ih =>
      have hnext := isOrderly_step h e
      rw [commits, List.mem_append] at hmem
      cases hcommit : j.commit? e with
      | none =>
          have hrest : number ∈ (j.step e).commits events := by simpa [hcommit] using hmem
          exact Nat.lt_of_le_of_lt (stands_step hcommit).settled_le (ih hnext hrest)
      | some f =>
          obtain ⟨hf, hle, -⟩ := step_of_commit hcommit
          have hlt : j.place.settled < f.number := h.settled_lt hf hle
          rcases hmem with hnow | hrest
          · obtain rfl : number = f.number := by simpa [hcommit] using hnow
            exact hlt
          · have hsettled := (standing_step_of_commit hcommit).2.1
            have hlater := ih hnext hrest
            rw [hsettled] at hlater
            exact Nat.lt_trans hlt hlater

theorem pairwise_commits (h : j.IsOrderly) (events : List Event) :
    (j.commits events).Pairwise (· < ·) := by
  induction events generalizing j with
  | nil => exact .nil
  | cons e events ih =>
      have hnext := isOrderly_step h e
      rw [commits]
      cases hcommit : j.commit? e with
      | none => exact ih hnext
      | some f =>
          refine List.pairwise_cons.mpr ⟨fun number hmem => ?_, ih hnext⟩
          have hlater := settled_lt_of_mem_commits hnext hmem
          rwa [(standing_step_of_commit hcommit).2.1] at hlater

/-- An answer that is out of date changes nothing, and a listing that fails changes nothing but the
settled counter, the message and, if it is the newest, the status.  Over a run the listings commit
in the order of their numbers; the directory changes only when one does, and the selection only
then or when something is selected. -/
theorem stands_still_without_commit (fragment : String) (events : List Event) :
    let j := (opening fragment).run events
    (∀ f ∈ j.ahead, ∀ o,
      (f.number < j.place.settled → (j.answer f.number o).place = j.place) ∧
      (j.place.settled ≤ f.number → f.Fails o →
        ∃ settled status message written,
          (j.answer f.number o).place =
            { j.place with settled, status, screen := { j.place.screen with message, written } } ∧
          (f.number ≠ j.place.issued → status = j.place.status))) ∧
    ((opening fragment).commits events).Pairwise (· < ·) ∧
    ∀ e, match j.commit? e with
      | some f => (j.step e).place.committed = f.number ∧ (j.step e).place.directory = f.target
      | none => (j.step e).place.committed = j.place.committed ∧
          (j.step e).place.directory = j.place.directory ∧
          ((∀ path name, e ≠ .select path name) →
            (j.step e).place.selection = j.place.selection) := by
  intro j
  have hj : j.IsOrderly := isOrderly_run (isOrderly_opening fragment) events
  refine ⟨fun f hf o => ?_, pairwise_commits (isOrderly_opening fragment) events, fun e => ?_⟩
  · have hplace : (j.answer f.number o).place = (j.place.settle f o).1 := by
      rw [answer_of_fetch? (fetch?_of_mem hj hf)]
    rw [hplace, Navigation.settle_fst]
    constructor
    · intro hlate
      exact if_pos hlate
    · intro hfresh hfails
      rw [if_neg (Nat.not_lt.mpr hfresh)]
      exact j.place.heed_settled_of_not_shows f ((f.fails_iff o).mp hfails)
  · cases hcommit : j.commit? e with
    | none =>
        have hstands := stands_step hcommit
        exact ⟨hstands.committed, hstands.directory, selection_step hcommit⟩
    | some f =>
        obtain ⟨hcommitted, -, hdirectory⟩ := standing_step_of_commit hcommit
        exact ⟨hcommitted, hdirectory⟩

theorem stands_still_of_three :
    let events : List Event := [.navigate "/a" false, .navigate "/b" false, .navigate "/c" false,
      .answer 2 (.error (.transport "down" none))]
    let j := (opening "").run events
    (⟨1, "/a"⟩ ∈ j.ahead ∧ 1 < j.place.settled ∧
      (j.answer 1 (.ok (.object []))).place = j.place) ∧
    (⟨3, "/c"⟩ ∈ j.ahead ∧ j.place.settled ≤ 3 ∧ Fetch.Fails ⟨3, "/c"⟩ (.ok .null) ∧
      ∃ settled status message written,
        (j.answer 3 (.ok .null)).place =
          { j.place with settled, status, screen := { j.place.screen with message, written } }) ∧
    (j.commit? .refresh = none ∧ (j.step .refresh).place.selection = j.place.selection) := by
  intro events j
  obtain ⟨hanswers, -, hsteps⟩ := stands_still_without_commit "" events
  have hfirst : (⟨1, "/a"⟩ : Fetch) ∈ j.ahead := by decide
  have hthird : (⟨3, "/c"⟩ : Fetch) ∈ j.ahead := by decide
  have hlate : 1 < j.place.settled := by decide
  have hfresh : j.place.settled ≤ 3 := by decide
  have hfails : Fetch.Fails ⟨3, "/c"⟩ (.ok .null) := by
    rintro payload l ⟨⟩
    simp [Listing.ofPayload, Entry.ofListing, Value.asObject, bind, Except.bind]
  obtain ⟨settled, status, message, written, hplace, -⟩ :=
    (hanswers _ hthird (.ok .null)).2 hfresh hfails
  exact ⟨⟨hfirst, hlate, (hanswers _ hfirst _).1 hlate⟩,
    ⟨hthird, hfresh, hfails, settled, status, message, written, hplace⟩,
    rfl, (hsteps .refresh).2.2 (fun path name h => by cases h)⟩

end Journey

end HdfsBrowser
