import HdfsBrowser.Proofs.Session.Deed

/-!
# The course of a change

A change sends one request of its own, which redirections may send elsewhere.
When it is refused the message is shown and nothing else is asked for; when it
is accepted the listing of the directory of that moment is asked for, once, and
the change comes to what its own request came to, if only that listing can be
settled.  Whatever else goes on in the session makes no difference.
-/

namespace HdfsBrowser

/-! ## Courses -/

inductive Phase.IsChange : Phase → Prop
  | changing : IsChange .changing
  | listing (f : Fetch) (v : Value) : IsChange (.listing f (.changed (.ok v)))

theorem Session.abandon_single {a : Activity} (c : Console) (hphase : a.phase.IsChange)
    (f : Fault) : (a.abandon c [f]).2 = .single f := by
  obtain ⟨control, phase⟩ := a
  cases hphase <;> rfl

section

variable [Client]

/-- How a change can go on that waits in a phase for the reply to a draft.  It may not have come to
its end yet. -/
inductive Course (settings : Settings) : Phase → Draft → List Deed → Prop
  | unfinished {phase : Phase} {d : Draft} : Course settings phase d []
  | hop {phase : Phase} {d : Draft} {r : Reply} {e : Exchange} {n : Navigation} {deeds : List Deed}
      (hreply : d.resolution [r] = .pending e)
      (hrest : Course settings phase { d with exchange := e } deeds) :
      Course settings phase d (⟨r, n, n, [e.request], []⟩ :: deeds)
  | raised {phase : Phase} {d : Draft} {r : Reply} {f : Fault} {n : Navigation}
      (hreply : d.resolution [r] = .raised f) :
      Course settings phase d [⟨r, n, n, [], [.aborted (.single f)]⟩]
  | refused {d : Draft} {r : Reply} {why : Failure} {n : Navigation}
      (hreply : d.resolution [r] = .returned (.error why)) :
      Course settings .changing d
        [⟨r, n, { n with screen := n.screen.showError why.message }, [],
          [.answered (.outcome (.error why))]⟩]
  | accepted {d : Draft} {r : Reply} {v : Value} {n : Navigation} {address : String}
      {request : Request} {deeds : List Deed} (hreply : d.resolution [r] = .returned (.ok v))
      (hlisting : (Call.listing n.directory).request settings = .ok (address, request))
      (hrest : Course settings (.listing ⟨n.issued + 1, n.directory⟩ (.changed (.ok v)))
        ⟨0, .listStatus, address, .start request⟩ deeds) :
      Course settings .changing d
        (⟨r, n, { n with issued := n.issued + 1, status := .loading }, [request], []⟩ :: deeds)
  | unaddressed {d : Draft} {r : Reply} {v : Value} {n : Navigation} {why : UrlFault}
      (hreply : d.resolution [r] = .returned (.ok v))
      (hlisting : (Call.listing n.directory).request settings = .error why) :
      Course settings .changing d
        [⟨r, n, { n with issued := n.issued + 1, status := .loading }, [],
          [.aborted (.single (.address why))]⟩]
  | settled {d : Draft} {r : Reply} {v : Value} {f : Fetch} {o : Outcome} {n : Navigation}
      (hreply : d.resolution [r] = .returned o) (hsettles : n.Settles f o) :
      Course settings (.listing f (.changed (.ok v))) d
        [⟨r, n, (n.settle f o).1, [], [.answered (.outcome (.ok v))]⟩]
  | unsettled {d : Draft} {r : Reply} {v : Value} {f : Fetch} {o : Outcome} {n : Navigation}
      {why : Fault} (hreply : d.resolution [r] = .returned o) (hsettles : ¬ n.Settles f o)
      (hwhy : (n.settle f o).2 = .error why) :
      Course settings (.listing f (.changed (.ok v))) d
        [⟨r, n, (n.settle f o).1, [], [.aborted (.single why)]⟩]

namespace Session

variable {settings : Settings} {s : Session} {owner : Nat} {a : Activity} {d : Draft} {r : Reply}

/-- A reply to a change ends it, or it sends one more request and the change waits again. -/
inductive Advances (settings : Settings) (owner : Nat) (s t : Session) (phase : Phase) (d : Draft)
    (r : Reply) : Prop
  | ends {e : Ending} (hsent : t.sent = s.sent) (hended : t.ended = s.ended ++ [(owner, e)])
      (hidle : (t.share owner).IsIdle)
      (hcourse : Course settings phase d
        [⟨r, s.console.navigation, t.console.navigation, [], [e]⟩])
  | waits {request : Request} {a' : Activity} {d' : Draft} (hsent : t.sent = s.sent ++ [request])
      (hended : t.ended = s.ended) (hphase : a'.phase.IsChange)
      (hawaits : (t.share owner).Awaits a' d')
      (hcourse : ∀ deeds, Course settings a'.phase d' deeds →
        Course settings phase d
          (⟨r, s.console.navigation, t.console.navigation, [request], []⟩ :: deeds))

theorem advances_send (hactivity : s.activity? owner = some a)
    (hpending : (s.share owner).pending = []) (hphase : a.phase.IsChange) {e : Exchange}
    (hreply : d.resolution [r] = .pending e) :
    Advances settings owner s (s.send owner { d with exchange := e }) a.phase d r :=
  .waits rfl rfl hphase (awaits_send hactivity hpending _) fun _ hrest => .hop hreply hrest

theorem Advances.of_endsBy {t : Session} {phase : Phase} {e : Ending} {n : Navigation}
    (h : s.EndsBy t owner e n)
    (hcourse : Course settings phase d [⟨r, s.console.navigation, n, [], [e]⟩]) :
    Advances settings owner s t phase d r :=
  .ends h.sent h.ended h.idle (h.navigation ▸ hcourse)

theorem advances_abort (hphase : a.phase.IsChange) {f : Fault}
    (hreply : d.resolution [r] = .raised f) :
    Advances settings owner s (s.abort owner a [f]) a.phase d r := by
  have hends := endsBy_abort s owner a [f]
  rw [abandon_single s.console hphase] at hends
  exact .of_endsBy hends (.raised hreply)

theorem advances_refused (s : Session) (control : Option String) {why : Failure}
    (hreply : d.resolution [r] = .returned (.error why)) :
    Advances settings owner s
      (s.proceed owner (Activity.changed s.console control (.error why))) .changing d r :=
  .of_endsBy (endsBy_finish s owner (s.console.showError why.message) control
    (.ok (.outcome (.error why)))) (.refused hreply)

theorem advances_accepted (control : Option String) {v : Value}
    (hpending : (s.share owner).pending = []) (hsettings : s.console.settings = settings)
    (hnormal : Path.normalize s.console.navigation.directory = s.console.navigation.directory)
    (hreply : d.resolution [r] = .returned (.ok v)) :
    Advances settings owner s
      (s.proceed owner (Activity.changed s.console control (.ok v))) .changing d r := by
  subst hsettings
  change Advances _ owner s (s.proceed owner
    (Activity.follow s.console control (.changed (.ok v)) s.console.navigation.refresh)) _ _ _
  rcases refreshes hpending hnormal control (.changed (.ok v)) with
    ⟨address, request, hrequest, hasks⟩ | ⟨why, hrequest, hends⟩
  · refine .waits hasks.sent hasks.ended (.listing _ v) hasks.awaits fun deeds hrest => ?_
    rw [hasks.navigation]
    exact .accepted hreply hrequest hrest
  · exact .of_endsBy hends (.unaddressed hreply hrequest)

theorem advances_listed (s : Session) (control : Option String) (f : Fetch) (v : Value)
    {o : Outcome} (hreply : d.resolution [r] = .returned o) :
    Advances settings owner s
      (s.proceed owner (Activity.listed s.console control f (.changed (.ok v)) o))
      (.listing f (.changed (.ok v))) d r := by
  by_cases hsettles : s.console.navigation.Settles f o
  · obtain ⟨moved, hlisted⟩ := listed_of_settles hsettles control (.changed (.ok v))
    rw [hlisted]
    exact .of_endsBy (endsBy_finish s owner _ control (.ok (.outcome (.ok v))))
      (.settled hreply hsettles)
  · obtain ⟨why, hwhy, hlisted⟩ := listed_of_not_settles hsettles control (.changed (.ok v))
    rw [hlisted]
    exact .of_endsBy (endsBy_finish s owner _ control (.error why))
      (.unsettled hreply hsettles hwhy)

theorem advances_reply (hsettings : s.console.settings = settings)
    (hnormal : Path.normalize s.console.navigation.directory = s.console.navigation.directory)
    (hphase : a.phase.IsChange) (hawaits : (s.share owner).Awaits a d) {number : Nat}
    (hmover : s.mover? (.reply number r) = some owner) :
    Advances settings owner s (s.step (.reply number r)) a.phase d r := by
  obtain ⟨hactivity, hpending, hstep⟩ := step_of_awaits hawaits hmover
  suffices h : Advances settings owner (s.withdraw number) (s.step (.reply number r)) a.phase d r by
    cases h with
    | ends hsent hended hidle hcourse => exact .ends hsent hended hidle hcourse
    | waits hsent hended hphase hawaits hcourse =>
        exact .waits hsent hended hphase hawaits hcourse
  rw [hstep]
  cases hreply : d.resolution [r] with
  | pending e => exact advances_send hactivity hpending hphase hreply
  | raised f => exact advances_abort hphase hreply
  | returned o =>
      obtain ⟨control, phase⟩ := a
      cases hphase with
      | changing =>
          cases o with
          | error why => exact advances_refused (s.withdraw number) control hreply
          | ok v => exact advances_accepted control hpending hsettings hnormal hreply
      | listing f v => exact advances_listed (s.withdraw number) control f v hreply

/-! ## Whole runs -/

theorem course_deeds (hsound : s.IsSound) (hnumbered : s.IsNumbered)
    (hsettings : s.console.settings = settings) (hphase : a.phase.IsChange)
    (hawaits : (s.share owner).Awaits a d) {events : List Event}
    (hnew : ∀ action, .start owner action ∉ events) :
    Course settings a.phase d (s.deeds owner events) := by
  induction events generalizing s a d with
  | nil => exact .unfinished
  | cons e events ih =>
      have hsound' := isSound_step hsound e
      have hnumbered' := isNumbered_step hnumbered e
      have hsettings' : (s.step e).console.settings = settings :=
        (settings_step s e).trans hsettings
      have hnew' : ∀ action, .start owner action ∉ events := fun action hmem =>
        hnew action (List.mem_cons_of_mem e hmem)
      rw [deeds]
      by_cases hmover : s.mover? e = some owner
      · obtain ⟨number, r, rfl⟩ := mover?_eq_some hnew hmover
        cases advances_reply hsettings hsound.orderly.directory_normal hphase hawaits hmover with
        | @ends ending hsent hended hidle hcourse =>
            rw [deed?_of_step hmover [] [ending] (by simpa using hsent) hended,
              deeds_of_isIdle hnumbered' hidle hnew']
            exact hcourse
        | @waits request a' d' hsent hended hphase' hawaits' hcourse =>
            rw [deed?_of_step hmover [request] [] hsent (by simpa using hended)]
            exact hcourse _ (ih hsound' hnumbered' hsettings' hphase' hawaits' hnew')
      · rw [deed?_of_mover hmover]
        refine ih hsound' hnumbered' hsettings' hphase ?_ hnew'
        rwa [share_step_of_ne hnumbered hmover]

theorem start_change {ch : Change} {call : Call} {address : String} {request : Request}
    (hcall : ch.call = .ok call)
    (hrequest : call.request s.console.settings = .ok (address, request)) (owner : Nat)
    (control : Option String) :
    ∃ c : Console, c.navigation = s.console.navigation ∧
      s.start owner (.change ch control) =
        ({ s with console := c }.setActivity owner ⟨control, .changing⟩).send owner
          ⟨0, call.operation, address, .start request⟩ := by
  let c : Console := (s.console.register control).disable control
  have hsettings : c.settings = s.console.settings := by simp [c]
  have hnavigation : c.navigation = s.console.navigation :=
    (Activity.navigation_disable _ control).trans (Activity.navigation_register _ control)
  refine ⟨c, hnavigation, ?_⟩
  rw [← hsettings] at hrequest
  rw [← wait_of_request { s with console := c } hrequest]
  simp only [start, Activity.begin, Activity.change, hcall]
  rfl

/-- A change whose input is accepted sends its own request and changes nothing else by that.  From
then on it takes its course, whatever other activities do meanwhile, and it ends in no other way. -/
theorem change_takes_its_course (settings : Settings) (fragment : String)
    (before after : List Event) {owner : Nat} {ch : Change} {control : Option String} {call : Call}
    {address : String} {request : Request}
    (hidle : ((opening settings fragment).run before).activity? owner = none)
    (hcall : ch.call = .ok call) (hrequest : call.request settings = .ok (address, request))
    (hnew : ∀ action, .start owner action ∉ after) :
    let s := (opening settings fragment).run before
    let t := s.step (.start owner (.change ch control))
    t.console.navigation = s.console.navigation ∧ t.sent = s.sent ++ [request] ∧
      t.ended = s.ended ∧
    Course settings .changing ⟨0, call.operation, address, .start request⟩ (t.deeds owner after) ∧
    ((t.run after).share owner).endings =
      (s.share owner).endings ++ (t.deeds owner after).flatMap (·.ended) := by
  intro s t
  have hnumbered : s.IsNumbered := isNumbered_run (isNumbered_opening settings fragment) before
  have hreached : Reached settings fragment s := Reached.opening.run before
  have hsettings : s.console.settings = settings := settings_run (opening settings fragment) before
  have hattended : (s.share owner).IsAttended :=
    isAttended_run (isNumbered_opening settings fragment) (fun _ => rfl) before
  have hnumbered' : t.IsNumbered := isNumbered_step hnumbered _
  have hsound' : t.IsSound := (hreached.step _).journey.2
  have hsettings' : t.console.settings = settings := (settings_step s _).trans hsettings
  have ht : t = s.start owner (.change ch control) := step_start hidle _
  rw [← hsettings] at hrequest
  obtain ⟨c, hnavigation, hstart⟩ := start_change hcall hrequest owner control
  rw [hstart] at ht
  have hendings : (t.share owner).endings = (s.share owner).endings := by
    rw [ht]
    rfl
  have hawaits : (t.share owner).Awaits ⟨control, .changing⟩
      ⟨0, call.operation, address, .start request⟩ := by
    have hactivity : ({ s with console := c }.setActivity owner
        ⟨control, .changing⟩).activity? owner = some ⟨control, .changing⟩ :=
      activity?_setActivity { s with console := c } owner _
    rw [ht]
    exact awaits_send hactivity (hattended hidle) _
  refine ⟨?_, ?_, ?_, course_deeds hsound' hnumbered' hsettings' .changing hawaits hnew, ?_⟩
  · rw [ht]
    exact hnavigation
  · rw [ht]
    rfl
  · rw [ht]
    rfl
  · rw [endings_run hnumbered' hnew, hendings]

end Session

end

namespace Session

attribute [local instance] Client.plain

theorem change_takes_its_course_of_failed_listing :
    let settings := { Settings.default with gateway := "http://nn:9870" }
    let ch : Change := .makeDirectory "/" "d" none
    let call := Call.makeDirectory "/d" none
    let address := "http://nn:9870/webhdfs/v1/d?op=MKDIRS"
    let request : Request :=
      ⟨.put, ⟨"http", "", "nn", some 9870, "/webhdfs/v1/d", some "op=MKDIRS", none⟩, []⟩
    let made : Reply := .response ⟨200, "OK", [], Utf8.encode "\x7b\"boolean\":true\x7d"⟩
    let listed : Reply := .response ⟨200, "OK", [], Utf8.encode "\x7b\"FileStatuses\":\x7b\x7d\x7d"⟩
    let s := (opening settings "").run [.start 0 (.navigate "/a" false)]
    let t := s.step (.start 1 (.change ch none))
    let after : List Event := [.reply 1 listed, .reply 2 made, .reply 3 (.failure .connect "")]
    s.activity? 1 = none ∧ ch.call = .ok call ∧ call.request settings = .ok (address, request) ∧
      (∀ action, .start 1 action ∉ after) ∧ t.sent = s.sent ++ [request] ∧
      Course settings .changing ⟨0, .makeDirectory, address, .start request⟩ (t.deeds 1 after) ∧
      ((t.run after).share 1).endings = [.answered (.outcome (.ok (.bool true)))] := by
  intro settings ch call address request made listed s t after
  have hidle : s.activity? 1 = none := by decide
  have hcall : ch.call = .ok call := by decide
  have hrequest : call.request settings = .ok (address, request) := by decide +kernel
  have hnew : ∀ action, .start 1 action ∉ after := by
    simp only [after, List.mem_cons, reduceCtorEq, List.not_mem_nil, or_self, not_false_eq_true,
      implies_true]
  obtain ⟨-, hsent, -, hcourse, hendings⟩ := change_takes_its_course settings ""
    [.start 0 (.navigate "/a" false)] after hidle hcall hrequest hnew
  refine ⟨hidle, hcall, hrequest, hnew, hsent, hcourse, ?_⟩
  rw [hendings]
  decide +kernel

/-- The directory was made, but the listing that follows cannot be shown. -/
theorem unshowable_listing_hides_outcome :
    let settings := { Settings.default with gateway := "http://nn:9870" }
    let made : Reply := .response ⟨200, "OK", [], Utf8.encode "\x7b\"boolean\":true\x7d"⟩
    let listed : Reply := .response ⟨200, "OK", [], Utf8.encode ("\x7b\"FileStatuses\":" ++
      "\x7b\"FileStatus\":[\x7b\"pathSuffix\":\"f\",\"owner\":null\x7d]\x7d\x7d")⟩
    let s := (opening settings "").run [.start 0 (.change (.makeDirectory "/" "d" none) none)]
    s.pending.map (fun p => p.draft.resolution [made]) = [.returned (.ok (.bool true))] ∧
      (s.run [.reply 1 made, .reply 2 listed]).ended =
        [(0, .aborted (.single (.noLength .null)))] := by
  decide +kernel

end Session

end HdfsBrowser