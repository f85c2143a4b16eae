import HdfsBrowser.Proofs.Session.Batch

/-!
# The chronicle of a session

A session keeps its requests, and does not keep for which action each of them
was sent.  The chronicle of a run does: it numbers the actions that are begun,
and notes with every request the action that it belongs to.  A request that
follows a redirection belongs to the action of the request that was redirected.
-/

namespace HdfsBrowser

/-! ## Requests that are sent for an owner -/

namespace Session

variable {s : Session} {owner : Nat}

structure Sends (s t : Session) (owner : Nat) (ds : List Draft) : Prop where
  sent : t.sent = s.sent ++ ds.map (·.request)
  pending : ∀ p ∈ t.pending, p ∈ s.pending ∨ (p.owner = owner ∧ p.draft ∈ ds)

theorem Sends.refl (s : Session) (owner : Nat) : s.Sends s owner [] :=
  ⟨(List.append_nil _).symm, fun _ => .inl⟩

theorem Sends.trans {t u : Session} {ds es : List Draft} (hst : s.Sends t owner ds)
    (htu : t.Sends u owner es) : s.Sends u owner (ds ++ es) where
  sent := by rw [htu.sent, hst.sent, List.map_append, List.append_assoc]
  pending p hp := by
    rcases htu.pending p hp with hbefore | ⟨howner, hmem⟩
    · rcases hst.pending p hbefore with hold | ⟨howner, hmem⟩
      · exact .inl hold
      · exact .inr ⟨howner, List.mem_append_left es hmem⟩
    · exact .inr ⟨howner, List.mem_append_right ds hmem⟩

theorem sends_send (s : Session) (owner : Nat) (d : Draft) :
    s.Sends (s.send owner d) owner [d] where
  sent := rfl
  pending p hp := by
    rcases List.mem_append.mp hp with hold | hnew
    · exact .inl hold
    · obtain rfl := List.mem_singleton.mp hnew
      exact .inr ⟨rfl, List.mem_cons_self⟩

theorem sends_sendAll (s : Session) (owner : Nat) (ds : List Draft) :
    s.Sends (s.sendAll owner ds) owner ds := by
  induction ds generalizing s with
  | nil => exact .refl s owner
  | cons d ds ih => exact (sends_send s owner d).trans (ih (s.send owner d))

theorem Sends.close {t : Session} {ds : List Draft} (h : s.Sends t owner ds) (e : Ending) :
    s.Sends (t.close owner e) owner ds where
  sent := h.sent
  pending p hp := h.pending p (List.mem_filter.mp hp).1

theorem sends_abort (s : Session) (owner : Nat) (a : Activity) (fs : List Fault) :
    s.Sends (s.abort owner a fs) owner [] where
  sent := (List.append_nil _).symm
  pending _ hp := .inl (List.mem_filter.mp hp).1

theorem sends_setActivity (s : Session) (owner : Nat) (a : Activity) :
    s.Sends (s.setActivity owner a) owner [] := ⟨(Sends.refl s owner).sent, fun _ => .inl⟩

end Session

/-! ## Chronicles -/

/-- A request with the place, among the actions that were begun, of the one it belongs to. -/
structure Letter where
  origin : Nat
  draft : Draft
  deriving DecidableEq, Repr

structure Chronicle where
  session : Session
  begun : List Action
  latest : Nat → Nat
  letters : List Letter

namespace Chronicle

open Session (Event)

def opening (settings : Settings) (fragment : String) : Chronicle :=
  ⟨.opening settings fragment, [], fun _ => 0, []⟩

def enroll (c : Chronicle) : Event → Chronicle
  | .start owner action =>
    if (c.session.activity? owner).isSome then c
    else
      { c with
        begun := c.begun ++ [action]
        latest := Function.update c.latest owner c.begun.length }
  | .reply .. => c

/-- The letters are the requests of the session, and those that wait are noted with what their
owners have begun last. -/
structure IsFaithful (c : Chronicle) : Prop where
  sent : c.session.sent = c.letters.map (·.draft.request)
  origin_lt : ∀ l ∈ c.letters, l.origin < c.begun.length
  pending : ∀ p ∈ c.session.pending, ⟨c.latest p.owner, p.draft⟩ ∈ c.letters
  numbered : c.session.IsNumbered
  attended : ∀ owner, (c.session.share owner).IsAttended

variable {c : Chronicle}

theorem isFaithful_opening (settings : Settings) (fragment : String) :
    (opening settings fragment).IsFaithful where
  sent := rfl
  origin_lt := List.forall_mem_nil _
  pending := List.forall_mem_nil _
  numbered := Session.isNumbered_opening settings fragment
  attended := fun _ _ => rfl

/-- An owner that begins something has no requests that wait, so the place of what it began
before is not needed any longer. -/
theorem ne_of_pending (h : c.IsFaithful) {owner : Nat}
    (hidle : c.session.activity? owner = none) {p : Pending} (hp : p ∈ c.session.pending) :
    p.owner ≠ owner := by
  rintro rfl
  have hmem : p ∈ (c.session.share p.owner).pending := List.mem_filter.mpr ⟨hp, by simp⟩
  rw [h.attended p.owner hidle] at hmem
  exact List.not_mem_nil hmem

end Chronicle

/-! ## The requests of a step -/

variable [Client]

def Progress.drafts (settings : Settings) : Progress → List Draft
  | .waiting _ calls => Draft.sort (Draft.ofCalls settings 0 calls).1
  | _ => []

namespace Session

variable {s : Session} {owner : Nat}

def drafts (s : Session) : Event → List Draft
  | .start owner action =>
    if (s.activity? owner).isSome then []
    else (Activity.begin s.console action).2.drafts s.console.settings
  | .reply number r =>
    match s.pending? number with
    | none => []
    | some p =>
      match s.activity? p.owner with
      | none => []
      | some a =>
        match p.draft.resolution [r] with
        | .pending e => [{ p.draft with exchange := e }]
        | .returned o => (a.resume s.console p.draft.slot o).2.drafts s.console.settings
        | .raised _ => []

theorem drafts_reply {number : Nat} {p : Pending} {a : Activity}
    (hp : s.pending? number = some p) (ha : s.activity? p.owner = some a) (r : Reply) :
    s.drafts (.reply number r) =
      match p.draft.resolution [r] with
      | .pending e => [{ p.draft with exchange := e }]
      | .returned o => (a.resume s.console p.draft.slot o).2.drafts s.console.settings
      | .raised _ => [] := by
  simp only [drafts, hp, ha]

theorem sends_wait (s : Session) (owner : Nat) (a : Activity) (calls : List Call) :
    s.Sends (s.wait owner a calls) owner
      ((Progress.waiting a calls).drafts s.console.settings) := by
  have hsent := (sends_setActivity s owner a).trans (sends_sendAll (s.setActivity owner a) owner
    (Draft.sort (Draft.ofCalls s.console.settings 0 calls).1))
  unfold wait
  dsimp only
  split
  · exact hsent
  · have haborted :=
      hsent.trans (sends_abort _ owner a (Draft.ofCalls s.console.settings 0 calls).2)
    rwa [List.append_nil] at haborted

theorem sends_proceed (s : Session) (owner : Nat) (r : Console × Progress) :
    s.Sends (s.proceed owner r) owner (r.2.drafts r.1.settings) := by
  obtain ⟨c, progress⟩ := r
  have hkept : s.Sends { s with console := c } owner [] :=
    ⟨(Sends.refl s owner).sent, fun _ => .inl⟩
  cases progress with
  | waiting a calls => exact hkept.trans (sends_wait { s with console := c } owner a calls)
  | finished answer => exact hkept.close _
  | aborted why => exact hkept.close _

theorem sends_step {e : Event} (hmover : s.mover? e = some owner) :
    s.Sends (s.step e) owner (s.drafts e) := by
  cases e with
  | start mover action =>
      cases hidle : s.activity? mover with
      | some a => simp [mover?, hidle] at hmover
      | none =>
          obtain rfl : mover = owner := by simpa [mover?, hidle] using hmover
          have hsends := sends_proceed s mover (Activity.begin s.console action)
          rw [Activity.settings_begin] at hsends
          rw [step_start hidle, show s.drafts (.start mover action) =
            (Activity.begin s.console action).2.drafts s.console.settings by simp [drafts, hidle]]
          exact hsends
  | reply number r =>
      obtain ⟨p, hp, rfl⟩ := Option.map_eq_some_iff.mp hmover
      have hwithdrawn : s.Sends (s.withdraw number) p.owner [] :=
        ⟨(Sends.refl s p.owner).sent, fun _ hq => .inl (List.mem_filter.mp hq).1⟩
      rw [step_reply hp]
      cases hactivity : s.activity? p.owner with
      | none =>
          have hidle : (s.withdraw number).activity? p.owner = none := hactivity
          simpa only [release, hidle, drafts, hp, hactivity] using hwithdrawn
      | some a =>
          have hkept : (s.withdraw number).activity? p.owner = some a := hactivity
          rw [release_of_resolution hkept, drafts_reply hp hactivity]
          refine hwithdrawn.trans ?_
          rcases p.draft.resolution [r] with e | o | f
          · exact sends_send _ p.owner _
          · have hsends := sends_proceed (s.withdraw number) p.owner
              (a.resume s.console p.draft.slot o)
            rwa [Activity.settings_resume] at hsends
          · exact sends_abort _ p.owner a [f]

end Session

/-! ## Runs -/

namespace Chronicle

open Session (Event)

variable {c : Chronicle}

def step (c : Chronicle) (e : Event) : Chronicle :=
  let noted := c.enroll e
  { noted with
    session := c.session.step e
    letters := c.letters ++
      match c.session.mover? e with
      | none => []
      | some owner => (c.session.drafts e).map (Letter.mk (noted.latest owner)) }

def run (c : Chronicle) (events : List Event) : Chronicle := events.foldl step c

@[simp] theorem run_nil (c : Chronicle) : c.run [] = c := rfl

@[simp] theorem run_cons (c : Chronicle) (e : Event) (events : List Event) :
    c.run (e :: events) = (c.step e).run events := rfl

theorem session_run (c : Chronicle) (events : List Event) :
    (c.run events).session = c.session.run events := by
  induction events generalizing c with
  | nil => rfl
  | cons e events ih => exact ih (c.step e)

theorem step_cases (c : Chronicle) (e : Event) :
    (c.step e = { c with session := c.session.step e } ∧
      ∃ abandoned, c.session.step e = { c.session with abandoned }) ∨
    (∃ owner action, e = .start owner action ∧ c.session.activity? owner = none ∧
      c.session.mover? e = some owner ∧
      c.step e =
        { session := c.session.step e
          begun := c.begun ++ [action]
          latest := Function.update c.latest owner c.begun.length
          letters := c.letters ++ (c.session.drafts e).map (Letter.mk c.begun.length) }) ∨
    ∃ number p r, e = .reply number r ∧ c.session.pending? number = some p ∧
      c.session.mover? e = some p.owner ∧
      c.step e =
        { c with
          session := c.session.step e
          letters := c.letters ++ (c.session.drafts e).map (Letter.mk (c.latest p.owner)) } := by
  cases e with
  | start owner action =>
      cases hidle : c.session.activity? owner with
      | some a =>
          have hnone : c.session.mover? (.start owner action) = none := by
            simp [Session.mover?, hidle]
          exact .inl ⟨by simp [step, enroll, hnone, hidle],
            Session.step_of_mover?_eq_none hnone⟩
      | none =>
          refine .inr (.inl ⟨owner, action, rfl, hidle, by simp [Session.mover?, hidle], ?_⟩)
          simp [step, enroll, Session.mover?, hidle]
  | reply number r =>
      cases hp : c.session.pending? number with
      | none =>
          have hnone : c.session.mover? (.reply number r) = none := by
            simp [Session.mover?, hp]
          exact .inl ⟨by simp [step, enroll, hnone], Session.step_of_mover?_eq_none hnone⟩
      | some p =>
          refine .inr (.inr ⟨number, p, r, rfl, hp, by simp [Session.mover?, hp], ?_⟩)
          simp [step, enroll, Session.mover?, hp]

theorem isFaithful_step (h : c.IsFaithful) (e : Event) : (c.step e).IsFaithful := by
  have hnumbered := Session.isNumbered_step h.numbered e
  have hattended (owner : Nat) := Session.isAttended_step h.numbered (h.attended owner) e
  rcases c.step_cases e with ⟨hstep, abandoned, hstays⟩ |
    ⟨owner, action, rfl, hidle, hmover, hstep⟩ | ⟨number, p, r, rfl, hp, hmover, hstep⟩
  · rw [hstep, hstays]
    refine ⟨h.sent, h.origin_lt, h.pending, ?_, fun owner => ?_⟩
    · exact ⟨h.numbered.increasing, h.numbered.number_le⟩
    · exact h.attended owner
  · have hsends := Session.sends_step hmover
    rw [hstep]
    refine ⟨?_, ?_, ?_, hnumbered, hattended⟩
    · simp [hsends.sent, h.sent, Function.comp_def]
    · intro l hl
      rcases List.mem_append.mp hl with hold | hnew
      · exact (h.origin_lt l hold).trans (by simp)
      · obtain ⟨d, -, rfl⟩ := List.mem_map.mp hnew
        simp
    · intro q hq
      change Letter.mk (Function.update c.latest owner c.begun.length q.owner) q.draft ∈ _
      rcases hsends.pending q hq with hold | ⟨rfl, hnew⟩
      · rw [Function.update_of_ne (ne_of_pending h hidle hold)]
        exact List.mem_append_left _ (h.pending q hold)
      · rw [Function.update_self]
        exact List.mem_append_right _ (List.mem_map_of_mem hnew)
  · have hsends := Session.sends_step hmover
    have hknown : c.latest p.owner < c.begun.length :=
      h.origin_lt _ (h.pending p (Session.mem_of_pending? hp).1)
    rw [hstep]
    refine ⟨?_, ?_, ?_, hnumbered, hattended⟩
    · simp [hsends.sent, h.sent, Function.comp_def]
    · intro l hl
      rcases List.mem_append.mp hl with hold | hnew
      · exact h.origin_lt l hold
      · obtain ⟨d, -, rfl⟩ := List.mem_map.mp hnew
        exact hknown
    · intro q hq
      rcases hsends.pending q hq with hold | ⟨howner, hnew⟩
      · exact List.mem_append_left _ (h.pending q hold)
      · exact List.mem_append_right _ (List.mem_map.mpr ⟨q.draft, hnew, by rw [howner]⟩)

theorem isFaithful_run (h : c.IsFaithful) (events : List Event) : (c.run events).IsFaithful := by
  induction events generalizing c with
  | nil => exact h
  | cons e events ih => exact ih (isFaithful_step h e)

end Chronicle

end HdfsBrowser
