import HdfsBrowser.Proofs.Session.Batch
import HdfsBrowser.Proofs.Upload.Stage

/-!
# The course of an upload

In a session an upload goes from stage to stage, by the replies to its own
requests and by nothing else.  It sends the requests of all its files in its
first step.
-/

namespace HdfsBrowser

/-! ## Outcomes of files -/

namespace Upload

theorem allKnown?_none {files : List LocalFile} (hsome : files ≠ []) :
    Activity.allKnown? (files.map fun _ => none) = none := by
  cases files with
  | nil => exact absurd rfl hsome
  | cons f files => rfl

theorem allKnown?_outcomes {xs : List Resolution} (h : ∀ f, .raised f ∉ xs) :
    (∃ os, xs = os.map .returned ∧
      Activity.allKnown? (xs.map Resolution.outcome?) = some os) ∨
    (∃ e, .pending e ∈ xs) ∧ Activity.allKnown? (xs.map Resolution.outcome?) = none := by
  induction xs with
  | nil => exact .inl ⟨[], rfl, rfl⟩
  | cons x xs ih =>
      cases x with
      | raised f => exact absurd List.mem_cons_self (h f)
      | pending e => exact .inr ⟨⟨e, List.mem_cons_self⟩, rfl⟩
      | returned o =>
          rcases ih fun f hf => h f (List.mem_cons_of_mem _ hf) with
            ⟨os, rfl, hknown⟩ | ⟨⟨e, he⟩, hknown⟩
          · refine .inl ⟨o :: os, rfl, ?_⟩
            simp only [List.map_cons, Activity.allKnown?, Resolution.outcome?, Option.map_some,
              hknown]
          · exact .inr ⟨⟨e, List.mem_cons_of_mem _ he⟩, by
              simp [Activity.allKnown?, Resolution.outcome?, hknown]⟩

theorem conclude_uploaded (c : Console) (control : Option String) (os : List Outcome)
    (failure : Option Value) (moved : Bool) :
    ∃ c' : Console, c'.navigation = tell c.navigation failure ∧
      Activity.conclude c control (.uploaded os failure) moved =
        Activity.finish c' control (.ok (.outcomes os)) := by
  cases failure with
  | none => exact ⟨c, rfl, rfl⟩
  | some message => exact ⟨c.showError message, rfl, rfl⟩

end Upload

/-! ## Deeds and the requests that they answer -/

variable [Client]

namespace Session

variable {s : Session} {owner : Nat} {d : Draft} {r : Reply}

def turn? (s : Session) (owner : Nat) : Event → Option (Draft × Deed)
  | .start .. => none
  | .reply number r =>
    (s.pending? number).bind fun p => (s.deed? owner (.reply number r)).map (p.draft, ·)

def turns (s : Session) (owner : Nat) : List Event → List (Draft × Deed)
  | [] => []
  | e :: events => (s.turn? owner e).toList ++ (s.step e).turns owner events

theorem snd_turn? (s : Session) (owner : Nat) (e : Event) :
    (s.turn? owner e).map (·.2) = s.deed? owner e := by
  cases e with
  | start mover action => rfl
  | reply number r =>
      cases hp : s.pending? number with
      | none => simp [turn?, deed?, mover?, hp]
      | some p => simp [turn?, hp, Function.comp_def]

theorem snd_turns (s : Session) (owner : Nat) (events : List Event) :
    (s.turns owner events).map (·.2) = s.deeds owner events := by
  induction events generalizing s with
  | nil => rfl
  | cons e events ih =>
      rw [turns, deeds, List.map_append, ih, ← snd_turn?]
      cases s.turn? owner e <;> rfl

end Session

namespace Upload

variable {settings : Settings} {calls : List Call} {stage next last : Stage} {d : Draft}
  {k : Nat} {es : List Ending}

/-! ## What the session holds for an upload -/

def gatherer (settings : Settings) (calls : List Call) (control : Option String)
    (past : Script) : Activity :=
  ⟨control, .uploading ((fates settings calls past).map Resolution.outcome?)
    (lastFailure? settings calls past)⟩

/-- What an upload has in a session, stage by stage. -/
inductive Describes (settings : Settings) (calls : List Call) (control : Option String) :
    Stage → Session.Share → Prop
  | gathering {past : Script} {x : Session.Share}
      (hraised : ∀ f, .raised f ∉ fates settings calls past)
      (hgathers : x.Gathers (gatherer settings calls control past)
        (leftovers settings calls past).reduceOption) :
      Describes settings calls control (.gathering past) x
  | refreshing {past : Script} {f : Fetch} {address : String} {e : Exchange} {x : Session.Share}
      {os : List Outcome} (hfates : fates settings calls past = os.map .returned)
      (hawaits : x.Awaits ⟨control, .listing f (.uploaded os (lastFailure? settings calls past))⟩
        ⟨0, .listStatus, address, e⟩) :
      Describes settings calls control (.refreshing past f address e) x
  | closed {past : Script} {x : Session.Share} (hidle : x.IsIdle) :
      Describes settings calls control (.closed past) x

variable {control : Option String} {s t : Session} {owner : Nat} {r : Reply} {past : Script}

/-- A reply to a request of an upload takes it one stage on. -/
inductive Moves (settings : Settings) (calls : List Call) (control : Option String) (owner : Nat)
    (stage : Stage) (d : Draft) (r : Reply) (s t : Session) : Prop
  | intro {sent : List Request} {ended : List Ending} {next : Stage}
      (hsent : t.sent = s.sent ++ sent) (hended : t.ended = s.ended ++ ended.map (owner, ·))
      (hturn : Turn settings calls stage d
        ⟨r, s.console.navigation, t.console.navigation, sent, ended⟩ next)
      (hdescribes : Describes settings calls control next (t.share owner))

theorem Moves.of_endsBy {e : Ending} {n : Navigation} (h : s.EndsBy t owner e n)
    (hturn : Turn settings calls stage d ⟨r, s.console.navigation, n, [], [e]⟩ (.closed past)) :
    Moves settings calls control owner stage d r s t :=
  .intro (by simpa using h.sent) (by simpa using h.ended) (h.navigation ▸ hturn) (.closed h.idle)

theorem Moves.of_asksBy {request : Request} {a : Activity} {d' : Draft} {n : Navigation}
    (h : s.AsksBy t owner request a d' n)
    (hturn : Turn settings calls stage d ⟨r, s.console.navigation, n, [request], []⟩ next)
    (hdescribes : Describes settings calls control next (t.share owner)) :
    Moves settings calls control owner stage d r s t :=
  .intro h.sent (h.ended.trans (List.append_nil _).symm) (h.navigation ▸ hturn) hdescribes

section Gathering

variable {rest : List Draft} (hwaits : d ∈ (leftovers settings calls past).reduceOption)
  (hperm : (d :: rest).Perm (leftovers settings calls past).reduceOption)
include hwaits

theorem gatherer_of_pending {e : Exchange} (hreply : d.resolution [r] = .pending e) :
    gatherer settings calls control (past ++ [(d.slot, r)]) =
      gatherer settings calls control past := by
  have hsame : (fates settings calls (past ++ [(d.slot, r)])).map Resolution.outcome? =
      (fates settings calls past).map Resolution.outcome? := by
    rw [fates_of_waits hwaits, hreply, List.map_set]
    obtain ⟨hlt, hnow⟩ := List.getElem?_eq_some_iff.mp (getElem?_fates_of_waits hwaits)
    have hlt' : d.slot < ((fates settings calls past).map Resolution.outcome?).length := by
      simpa using hlt
    have hnone : Resolution.outcome? (.pending e) =
        ((fates settings calls past).map Resolution.outcome?)[d.slot] := by
      simp [hnow, Resolution.outcome?]
    rw [hnone, List.set_getElem_self]
  have hfailure : lastFailure? settings calls (past ++ [(d.slot, r)]) =
      lastFailure? settings calls past := by
    rw [lastFailure?_concat, failure?_of_waits hwaits, hreply]
    rfl
  simp only [gatherer, hsame, hfailure]

theorem resume_gatherer (c : Console) {o : Outcome} (hreply : d.resolution [r] = .returned o) :
    (gatherer settings calls control past).resume c d.slot o =
      Activity.gather c control
        ((fates settings calls (past ++ [(d.slot, r)])).map Resolution.outcome?)
        (lastFailure? settings calls (past ++ [(d.slot, r)])) [] := by
  have hfailure : Activity.lastFailure (lastFailure? settings calls past) o =
      lastFailure? settings calls (past ++ [(d.slot, r)]) := by
    rw [lastFailure?_concat, failure?_of_waits hwaits, hreply]
    cases o <;> rfl
  have houtcomes : ((fates settings calls past).map Resolution.outcome?).set d.slot (some o) =
      (fates settings calls (past ++ [(d.slot, r)])).map Resolution.outcome? := by
    rw [fates_of_waits hwaits, hreply, List.map_set]
    rfl
  rw [← houtcomes, ← hfailure]
  rfl

theorem moves_uploaded {os : List Outcome}
    (hfates : fates settings calls (past ++ [(d.slot, r)]) = os.map .returned)
    (hpending : (s.share owner).pending = []) (hsettings : s.console.settings = settings)
    (hnormal : Path.normalize s.console.navigation.directory = s.console.navigation.directory) :
    Moves settings calls control owner (.gathering past) d r s
      (s.proceed owner (Activity.uploaded s.console control os
        (lastFailure? settings calls (past ++ [(d.slot, r)])))) := by
  subst hsettings
  unfold Activity.uploaded
  by_cases hsome : os.any Activity.isDelivered = true
  · rw [if_pos hsome]
    rcases Session.refreshes hpending hnormal control (.uploaded os _) with
      ⟨address, request, hrequest, hasks⟩ | ⟨why, hrequest, hends⟩
    · exact .of_asksBy hasks (.delivered hwaits hfates hsome hrequest)
        (.refreshing hfates hasks.awaits)
    · exact .of_endsBy hends (.unaddressed hwaits hfates hsome hrequest)
  · rw [if_neg hsome]
    obtain ⟨c, hnavigation, hconclude⟩ := conclude_uploaded s.console control os
      (lastFailure? s.console.settings calls (past ++ [(d.slot, r)])) false
    have hturn : Turn s.console.settings calls (.gathering past) d
        ⟨r, s.console.navigation, c.navigation, [], [.answered (.outcomes os)]⟩
        (.closed (past ++ [(d.slot, r)])) := by
      rw [hnavigation]
      exact .refused hwaits hfates (Bool.eq_false_iff.mpr hsome)
    rw [hconclude]
    exact .of_endsBy (Session.endsBy_finish s owner c control (.ok (.outcomes os))) hturn

theorem moves_gathering (hperm : (d :: rest).Perm (leftovers settings calls past).reduceOption)
    (hraised : ∀ f, .raised f ∉ fates settings calls past)
    (hgathers : (s.share owner).Gathers (gatherer settings calls control past) rest)
    (hsettings : s.console.settings = settings)
    (hnormal : Path.normalize s.console.navigation.directory = s.console.navigation.directory)
    (ht : t =
      match d.resolution [r] with
      | .pending e => s.send owner { d with exchange := e }
      | .returned o =>
        s.proceed owner ((gatherer settings calls control past).resume s.console d.slot o)
      | .raised f => s.abort owner (gatherer settings calls control past) [f]) :
    Moves settings calls control owner (.gathering past) d r s t := by
  have hleft := perm_leftovers_of_waits hwaits hperm r
  cases hreply : d.resolution [r] with
  | pending e =>
      simp only [hreply] at ht
      have hafter : d.after [r] = some { d with exchange := e } :=
        Draft.after_eq_some_iff.mpr ⟨e, hreply, rfl⟩
      have hsent := Session.gathers_send hgathers { d with exchange := e }
      rw [hafter] at hleft
      subst ht
      refine .intro rfl (by simp [Session.send]) (.hop hwaits hreply) (.gathering ?_ ?_)
      · exact unraised_of_waits hwaits hraised (by simp [hreply])
      · rw [gatherer_of_pending hwaits hreply]
        exact ⟨hsent.activity, hsent.pending.trans hleft⟩
  | raised f =>
      simp only [hreply] at ht
      subst ht
      exact .of_endsBy (Session.endsBy_abort s owner _ [f]) (.broken hwaits hreply)
  | returned o =>
      simp only [hreply] at ht
      have hunraised := unraised_of_waits hwaits hraised (r := r) (by simp [hreply])
      have hafter : d.after [r] = none := by simp only [Draft.after, hreply]
      rw [hafter, Option.toList_none, List.append_nil] at hleft
      rw [resume_gatherer hwaits s.console hreply] at ht
      rcases allKnown?_outcomes hunraised with ⟨os, hfates, hknown⟩ | ⟨⟨e, hothers⟩, hknown⟩
      · simp only [Activity.gather, hknown] at ht
        rw [leftovers_eq_nil hfates] at hleft
        have hnone : (s.share owner).pending = [] :=
          List.map_eq_nil_iff.mp (hgathers.pending.trans hleft).eq_nil
        exact ht ▸ moves_uploaded hwaits hfates hnone hsettings hnormal
      · simp only [Activity.gather, hknown] at ht
        have hgatherer := Session.proceed_waiting_nil s owner
          (gatherer settings calls control (past ++ [(d.slot, r)]))
        rw [ht.trans hgatherer]
        refine .intro (List.append_nil _).symm (List.append_nil _).symm
          (.known hwaits hreply hothers) (.gathering hunraised ?_)
        exact Session.gathers_setActivity (hgathers.pending.trans hleft) _

end Gathering

theorem moves_refreshing {f : Fetch} {address : String} {e : Exchange} {os : List Outcome}
    (hfates : fates settings calls past = os.map .returned)
    (hactivity : s.activity? owner =
      some ⟨control, .listing f (.uploaded os (lastFailure? settings calls past))⟩)
    (hpending : (s.share owner).pending = [])
    (ht : t =
      match Draft.resolution ⟨0, .listStatus, address, e⟩ [r] with
      | .pending e' => s.send owner ⟨0, .listStatus, address, e'⟩
      | .returned o =>
        s.proceed owner (Activity.listed s.console control f
          (.uploaded os (lastFailure? settings calls past)) o)
      | .raised why =>
        s.abort owner ⟨control, .listing f (.uploaded os (lastFailure? settings calls past))⟩
          [why]) :
    Moves settings calls control owner (.refreshing past f address e)
      ⟨0, .listStatus, address, e⟩ r s t := by
  cases hreply : Draft.resolution ⟨0, .listStatus, address, e⟩ [r] with
  | pending e' =>
      simp only [hreply] at ht
      subst ht
      exact .intro rfl (List.append_nil _).symm (.listingHop hreply)
        (.refreshing hfates (Session.awaits_send hactivity hpending _))
  | raised why =>
      simp only [hreply] at ht
      subst ht
      exact .of_endsBy (Session.endsBy_abort s owner _ [why]) (.listingBroken hreply)
  | returned o =>
      simp only [hreply] at ht
      subst ht
      by_cases hsettles : s.console.navigation.Settles f o
      · obtain ⟨moved, hlisted⟩ := Session.listed_of_settles hsettles control
          (.uploaded os (lastFailure? settings calls past))
        obtain ⟨c, hnavigation, hconclude⟩ := conclude_uploaded
          { s.console with navigation := (s.console.navigation.settle f o).1 } control os
          (lastFailure? settings calls past) moved
        have hturn : Turn settings calls (.refreshing past f address e)
            ⟨0, .listStatus, address, e⟩ ⟨r, s.console.navigation, c.navigation, [],
              [.answered (.outcomes os)]⟩ (.closed past) := by
          rw [hnavigation]
          exact .settled hreply hsettles hfates
        rw [hlisted, hconclude]
        exact .of_endsBy (Session.endsBy_finish s owner c control (.ok (.outcomes os))) hturn
      · obtain ⟨why, hwhy, hlisted⟩ := Session.listed_of_not_settles hsettles control
          (.uploaded os (lastFailure? settings calls past))
        rw [hlisted]
        exact .of_endsBy (Session.endsBy_finish s owner _ control (.error why))
          (.unsettled hreply hsettles hwhy)

/-! ## Steps and runs -/

theorem moves_reply (hnumbered : s.IsNumbered) (hsettings : s.console.settings = settings)
    (hnormal : Path.normalize s.console.navigation.directory = s.console.navigation.directory)
    (hdescribes : Describes settings calls control stage (s.share owner)) {number : Nat}
    (hmover : s.mover? (.reply number r) = some owner) :
    ∃ p, s.pending? number = some p ∧
      Moves settings calls control owner stage p.draft r s (s.step (.reply number r)) := by
  suffices h : ∃ p, s.pending? number = some p ∧ Moves settings calls control owner stage p.draft r
      (s.withdraw number) (s.step (.reply number r)) by
    obtain ⟨p, hp, ⟨hsent, hended, hturn, hnext⟩⟩ := h
    exact ⟨p, hp, .intro hsent hended hturn hnext⟩
  cases hdescribes with
  | @gathering past _ hraised hgathers =>
      obtain ⟨p, hp, hmine, rfl, hstep⟩ := Session.step_of_mover hgathers.activity hmover
      obtain ⟨rest, hperm, hrest⟩ := Session.gathers_withdraw hnumbered hgathers hmine
      have hwaits : p.draft ∈ (leftovers settings calls past).reduceOption :=
        hperm.subset List.mem_cons_self
      exact ⟨p, hp, moves_gathering hwaits hperm hraised hrest hsettings hnormal hstep⟩
  | @refreshing past f address e _ os hfates hawaits =>
      obtain ⟨p, hp, hmine, rfl, -⟩ := Session.step_of_mover hawaits.activity hmover
      obtain ⟨hactivity, hpending, hstep⟩ := Session.step_of_awaits hawaits hmover
      have hdraft : p.draft = ⟨0, .listStatus, address, e⟩ :=
        List.mem_singleton.mp (hawaits.pending ▸ List.mem_map_of_mem hmine)
      exact ⟨p, hp, hdraft ▸ moves_refreshing hfates hactivity hpending hstep⟩
  | closed hidle => exact absurd hmover (Session.mover?_ne_of_isIdle hidle number r)

theorem run_turns (hsound : s.IsSound) (hnumbered : s.IsNumbered)
    (hsettings : s.console.settings = settings)
    (hdescribes : Describes settings calls control stage (s.share owner))
    {events : List Session.Event} (hnew : ∀ action, .start owner action ∉ events) :
    ∃ last, Run settings calls stage (s.turns owner events) last ∧
      Describes settings calls control last ((s.run events).share owner) := by
  induction events generalizing s stage with
  | nil => exact ⟨stage, .stays stage, hdescribes⟩
  | cons e events ih =>
      have hsound' := Session.isSound_step hsound e
      have hnumbered' := Session.isNumbered_step hnumbered e
      have hsettings' : (s.step e).console.settings = settings :=
        (Session.settings_step s e).trans hsettings
      have hnew' : ∀ action, .start owner action ∉ events := fun action hmem =>
        hnew action (List.mem_cons_of_mem e hmem)
      by_cases hmover : s.mover? e = some owner
      · obtain ⟨number, r, rfl⟩ := Session.mover?_eq_some hnew hmover
        obtain ⟨p, hp, hmoves⟩ := moves_reply hnumbered hsettings hsound.orderly.directory_normal
          hdescribes hmover
        obtain ⟨hsent, hended, hturn, hnext⟩ := hmoves
        obtain ⟨last, hrun, hlast⟩ := ih hsound' hnumbered' hsettings' hnext hnew'
        refine ⟨last, ?_, hlast⟩
        rw [Session.turns, Session.turn?, hp, Session.deed?_of_step hmover _ _ hsent hended]
        exact .goesOn hturn hrun
      · have hstays : s.turn? owner e = none := by
          have hnone := Session.snd_turn? s owner e
          rwa [Session.deed?_of_mover hmover, Option.map_eq_none_iff] at hnone
        rw [Session.turns, hstays]
        refine ih hsound' hnumbered' hsettings' ?_ hnew'
        rwa [Session.share_step_of_ne hnumbered hmover]

/-! ## The beginning -/

theorem gatherer_nil (settings : Settings) (calls : List Call) (control : Option String) :
    gatherer settings calls control [] = ⟨control, .uploading (calls.map fun _ => none) none⟩ := by
  have hnone : (fates settings calls []).map Resolution.outcome? = calls.map fun _ => none := by
    rw [fates_nil, List.map_map]
    refine List.map_congr_left fun c _ => ?_
    cases hfate : c.resolution settings [] with
    | returned o => exact absurd hfate (Call.resolution_nil_ne_returned settings c o)
    | pending e => simp [hfate, Resolution.outcome?]
    | raised f => simp [hfate, Resolution.outcome?]
  rw [gatherer, hnone]
  rfl

theorem exists_pending_nil (hsome : calls ≠ [])
    (hraised : ∀ f, .raised f ∉ fates settings calls []) :
    ∃ e, .pending e ∈ fates settings calls [] := by
  obtain ⟨c, hc⟩ := List.exists_mem_of_ne_nil calls hsome
  have hmem : c.resolution settings [] ∈ fates settings calls [] := mem_fates_nil.mpr ⟨c, hc, rfl⟩
  cases hfate : c.resolution settings [] with
  | pending e => exact ⟨e, hfate ▸ hmem⟩
  | returned o => exact absurd hfate (Call.resolution_nil_ne_returned settings c o)
  | raised f => exact absurd (hfate ▸ hmem) (hraised f)

theorem opens (hpending : (s.share owner).pending = []) (directory : String)
    (files : List LocalFile) (control : Option String) :
    let t := s.start owner (.upload directory files control)
    let calls := creations directory files
    (∃ requests, t.sent = s.sent ++ requests ∧
      requests.Perm (calls.filterMap (Call.opening? s.console.settings))) ∧
      t.console.navigation = s.console.navigation ∧
    ∃ stage es, stage.past = [] ∧ t.ended = s.ended ++ es.map (owner, ·) ∧
      Balances s.console.settings calls stage 0 es ∧
      Describes s.console.settings calls control stage (t.share owner) := by
  intro t calls
  let c : Console := (s.console.register control).disable control
  have hsettings : c.settings = s.console.settings := by simp [c]
  have hnavigation : c.navigation = s.console.navigation :=
    (Activity.navigation_disable _ control).trans (Activity.navigation_register _ control)
  by_cases hfiles : files = []
  · subst hfiles
    have hends := Session.endsBy_finish s owner c control (.ok (.outcomes []))
    have hfates : fates s.console.settings calls [] = [].map .returned := rfl
    exact ⟨⟨[], hends.sent.trans (List.append_nil _).symm, .refl _⟩,
      hends.navigation.trans hnavigation, .closed [], [.answered (.outcomes [])], rfl, hends.ended,
      .answered hfates, .closed hends.idle⟩
  · have hcalls : calls ≠ [] := by simpa [calls, creations] using hfiles
    let asking : Session := { s with console := c }
    have ht : t = asking.wait owner (gatherer s.console.settings calls control []) calls := by
      rw [gatherer_nil]
      simp only [t, Session.start, Activity.begin, Activity.upload, Activity.gather,
        allKnown?_none hfiles, calls, creations, List.map_map]
      rfl
    obtain ⟨hsent, hkept, hfate⟩ := Session.wait_calls (s := asking) hpending
      (gatherer s.console.settings calls control []) calls
    rw [← ht] at hsent hkept hfate
    simp only [asking, hsettings] at hsent hkept hfate
    refine ⟨hsent, hkept.trans hnavigation, ?_⟩
    rcases hfate with ⟨hraised, hended, hgathers⟩ | ⟨fs, hsome, hraised, hended, hidle⟩
    · obtain ⟨e, he⟩ := exists_pending_nil hcalls hraised
      exact ⟨.gathering [], [], rfl, hended.trans (List.append_nil _).symm,
        .gathering hraised he, .gathering hraised hgathers⟩
    · exact ⟨.closed [], [.aborted (.group fs)], rfl, hended, .broken hsome hraised, .closed hidle⟩

/-! ## The end -/

theorem Balances.exists_closed {x : Session.Share} (h : Balances settings calls last k es)
    (hdescribes : Describes settings calls control last x) (hpending : x.pending = []) :
    ∃ past, last = .closed past := by
  cases hdescribes with
  | closed => exact ⟨_, rfl⟩
  | refreshing _ hawaits => simpa [hpending] using hawaits.pending
  | gathering _ hgathers =>
      cases h with
      | gathering _ hwaits =>
          obtain ⟨d, hd⟩ := exists_waits hwaits
          have hperm := hgathers.pending
          rw [hpending, List.map_nil] at hperm
          rw [hperm.nil_eq.symm] at hd
          cases hd

theorem Balances.returns {x : Session.Share} (h : Balances settings calls last k es)
    (hdescribes : Describes settings calls control last x) (hpending : x.pending = [])
    (hunraised : ∀ f, .raised f ∉ fates settings calls last.past)
    (hunsingle : ∀ why, .aborted (.single why) ∉ es) :
    ∃ os, es = [.answered (.outcomes os)] := by
  obtain ⟨past, rfl⟩ := h.exists_closed hdescribes hpending
  cases h with
  | @broken past fs hsome hraised =>
      obtain ⟨f, hf⟩ := List.exists_mem_of_ne_nil fs hsome
      exact absurd (hraised f hf) (hunraised f)
  | @answered past os hfates => exact ⟨os, rfl⟩
  | @unrefreshed past os why => exact absurd List.mem_cons_self (hunsingle why)

end Upload

end HdfsBrowser
