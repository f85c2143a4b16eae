import HdfsBrowser.Proofs.Gateway.Fates
import HdfsBrowser.Proofs.Session.Deed

/-!
# The stages of an upload

An upload gathers what its files come to, in whatever order the replies arrive.
When the last file is known it asks for the listing of the directory, once, if
anything was delivered.  What it returns stands in the order of the files, and
the message that it leaves is that of the file that failed last.
-/

namespace HdfsBrowser

namespace Upload

def creations (directory : String) (files : List LocalFile) : List Call :=
  files.map fun f => .create (Path.child (Path.normalize directory) f.name) f.content

theorem operation_creations (directory : String) (files : List LocalFile) :
    ∀ c ∈ creations directory files, c.operation = .create := by
  intro c hc
  obtain ⟨f, -, rfl⟩ := List.mem_map.mp hc
  rfl

/-- What an upload waits for after some replies to the requests of its files. -/
inductive Stage where
  | gathering (past : Script)
  /-- All files are known, and the listing is on its way. -/
  | refreshing (past : Script) (f : Fetch) (address : String) (e : Exchange)
  | closed (past : Script)

def Stage.past : Stage → Script
  | .gathering past => past
  | .refreshing past .. => past
  | .closed past => past

def tell (n : Navigation) : Option Value → Navigation
  | none => n
  | some message => { n with screen := n.screen.showError message }

theorem issued_settle (n : Navigation) (f : Fetch) (o : Outcome) :
    (n.settle f o).1.issued = n.issued := by
  rw [Navigation.settle_fst]
  split
  · rfl
  · cases f.verdict o with
    | shows l => exact congrArg Standing.issued (Navigation.standing_commit n f l)
    | complains message => rfl
    | breaks why => rfl

theorem issued_tell (n : Navigation) (failure : Option Value) :
    (tell n failure).issued = n.issued := by
  cases failure <;> rfl

theorem message_tell (n : Navigation) {failure : Option Value} {message : Value}
    (h : failure = some message) : (tell n failure).screen.message = message := by
  subst h
  rfl

variable [Client]

/-- What the reply to a request does for an upload, stage by stage. -/
inductive Turn (settings : Settings) (calls : List Call) : Stage → Draft → Deed → Stage → Prop
  | hop {past : Script} {d : Draft} {r : Reply} {n : Navigation} {e : Exchange}
      (hwaits : d ∈ (leftovers settings calls past).reduceOption)
      (hreply : d.resolution [r] = .pending e) :
      Turn settings calls (.gathering past) d ⟨r, n, n, [e.request], []⟩
        (.gathering (past ++ [(d.slot, r)]))
  | broken {past : Script} {d : Draft} {r : Reply} {n : Navigation} {f : Fault}
      (hwaits : d ∈ (leftovers settings calls past).reduceOption)
      (hreply : d.resolution [r] = .raised f) :
      Turn settings calls (.gathering past) d ⟨r, n, n, [], [.aborted (.group [f])]⟩
        (.closed (past ++ [(d.slot, r)]))
  | known {past : Script} {d : Draft} {r : Reply} {n : Navigation} {o : Outcome} {e : Exchange}
      (hwaits : d ∈ (leftovers settings calls past).reduceOption)
      (hreply : d.resolution [r] = .returned o)
      (hothers : .pending e ∈ fates settings calls (past ++ [(d.slot, r)])) :
      Turn settings calls (.gathering past) d ⟨r, n, n, [], []⟩
        (.gathering (past ++ [(d.slot, r)]))
  | refused {past : Script} {d : Draft} {r : Reply} {n : Navigation} {os : List Outcome}
      (hwaits : d ∈ (leftovers settings calls past).reduceOption)
      (hfates : fates settings calls (past ++ [(d.slot, r)]) = os.map .returned)
      (hnone : os.any Activity.isDelivered = false) :
      Turn settings calls (.gathering past) d
        ⟨r, n, tell n (lastFailure? settings calls (past ++ [(d.slot, r)])), [],
          [.answered (.outcomes os)]⟩
        (.closed (past ++ [(d.slot, r)]))
  | delivered {past : Script} {d : Draft} {r : Reply} {n : Navigation} {os : List Outcome}
      {address : String} {request : Request}
      (hwaits : d ∈ (leftovers settings calls past).reduceOption)
      (hfates : fates settings calls (past ++ [(d.slot, r)]) = os.map .returned)
      (hsome : os.any Activity.isDelivered = true)
      (hlisting : (Call.listing n.directory).request settings = .ok (address, request)) :
      Turn settings calls (.gathering past) d
        ⟨r, n, { n with issued := n.issued + 1, status := .loading }, [request], []⟩
        (.refreshing (past ++ [(d.slot, r)]) ⟨n.issued + 1, n.directory⟩ address (.start request))
  | unaddressed {past : Script} {d : Draft} {r : Reply} {n : Navigation} {os : List Outcome}
      {why : UrlFault} (hwaits : d ∈ (leftovers settings calls past).reduceOption)
      (hfates : fates settings calls (past ++ [(d.slot, r)]) = os.map .returned)
      (hsome : os.any Activity.isDelivered = true)
      (hlisting : (Call.listing n.directory).request settings = .error why) :
      Turn settings calls (.gathering past) d
        ⟨r, n, { n with issued := n.issued + 1, status := .loading }, [],
          [.aborted (.single (.address why))]⟩
        (.closed (past ++ [(d.slot, r)]))
  | listingHop {past : Script} {f : Fetch} {address : String} {e e' : Exchange} {r : Reply}
      {n : Navigation}
      (hreply : Draft.resolution ⟨0, .listStatus, address, e⟩ [r] = .pending e') :
      Turn settings calls (.refreshing past f address e) ⟨0, .listStatus, address, e⟩
        ⟨r, n, n, [e'.request], []⟩ (.refreshing past f address e')
  | listingBroken {past : Script} {f : Fetch} {address : String} {e : Exchange} {r : Reply}
      {n : Navigation} {why : Fault}
      (hreply : Draft.resolution ⟨0, .listStatus, address, e⟩ [r] = .raised why) :
      Turn settings calls (.refreshing past f address e) ⟨0, .listStatus, address, e⟩
        ⟨r, n, n, [], [.aborted (.single why)]⟩ (.closed past)
  /-- The message of the last failure takes the place of what the listing left. -/
  | settled {past : Script} {f : Fetch} {address : String} {e : Exchange} {r : Reply}
      {n : Navigation} {o : Outcome} {os : List Outcome}
      (hreply : Draft.resolution ⟨0, .listStatus, address, e⟩ [r] = .returned o)
      (hsettles : n.Settles f o) (hfates : fates settings calls past = os.map .returned) :
      Turn settings calls (.refreshing past f address e) ⟨0, .listStatus, address, e⟩
        ⟨r, n, tell (n.settle f o).1 (lastFailure? settings calls past), [],
          [.answered (.outcomes os)]⟩ (.closed past)
  | unsettled {past : Script} {f : Fetch} {address : String} {e : Exchange} {r : Reply}
      {n : Navigation} {o : Outcome} {why : Fault}
      (hreply : Draft.resolution ⟨0, .listStatus, address, e⟩ [r] = .returned o)
      (hsettles : ¬ n.Settles f o) (hwhy : (n.settle f o).2 = .error why) :
      Turn settings calls (.refreshing past f address e) ⟨0, .listStatus, address, e⟩
        ⟨r, n, (n.settle f o).1, [], [.aborted (.single why)]⟩ (.closed past)

inductive Run (settings : Settings) (calls : List Call) :
    Stage → List (Draft × Deed) → Stage → Prop
  | stays (stage : Stage) : Run settings calls stage [] stage
  | goesOn {stage next last : Stage} {d : Draft} {deed : Deed} {turns : List (Draft × Deed)}
      (hturn : Turn settings calls stage d deed next) (hrest : Run settings calls next turns last) :
      Run settings calls stage ((d, deed) :: turns) last

variable {settings : Settings} {calls : List Call} {stage next last : Stage} {d : Draft}
  {deed : Deed} {turns : List (Draft × Deed)} {k : Nat} {es : List Ending}

/-! ## The replies that an upload was given -/

def script (turns : List (Draft × Deed)) : Script :=
  turns.filterMap fun (d, deed) =>
    if d.operation = .create then some (d.slot, deed.reply) else none

theorem operation_of_waits {past : Script} (hcreate : ∀ c ∈ calls, c.operation = .create)
    (hwaits : d ∈ (leftovers settings calls past).reduceOption) : d.operation = .create := by
  obtain ⟨c, hc, hleft⟩ := exists_of_mem_leftovers hwaits
  rw [(Call.shape_of_leftover hleft).2]
  exact hcreate c (List.mem_of_getElem? hc)

theorem past_turn (hcreate : ∀ c ∈ calls, c.operation = .create)
    (h : Turn settings calls stage d deed next) :
    next.past = stage.past ++ script [(d, deed)] := by
  cases h with
  | hop hwaits | broken hwaits | known hwaits | refused hwaits | delivered hwaits
  | unaddressed hwaits =>
      simp [Stage.past, script, operation_of_waits hcreate hwaits]
  | _ => simp [Stage.past, script]

theorem past_run (hcreate : ∀ c ∈ calls, c.operation = .create)
    (h : Run settings calls stage turns last) : last.past = stage.past ++ script turns := by
  induction h with
  | stays stage => simp [script]
  | @goesOn stage next last d deed turns hturn hrest ih =>
      rw [ih, past_turn hcreate hturn, List.append_assoc, script, script, ← List.filterMap_append]
      rfl

/-! ## The balance -/

def refreshCount (turns : List (Draft × Deed)) : Nat :=
  (turns.map fun (_, deed) => deed.after.issued - deed.before.issued).sum

/-- How many listings an upload has asked for in a stage, and how it has ended. -/
inductive Balances (settings : Settings) (calls : List Call) : Stage → Nat → List Ending → Prop
  | gathering {past : Script} {e : Exchange} (hraised : ∀ f, .raised f ∉ fates settings calls past)
      (hwaits : .pending e ∈ fates settings calls past) :
      Balances settings calls (.gathering past) 0 []
  | refreshing {past : Script} {f : Fetch} {address : String} {e : Exchange} {os : List Outcome}
      (hfates : fates settings calls past = os.map .returned)
      (hsome : os.any Activity.isDelivered = true) :
      Balances settings calls (.refreshing past f address e) 1 []
  | broken {past : Script} {fs : List Fault} (hsome : fs ≠ [])
      (hraised : ∀ f ∈ fs, .raised f ∈ fates settings calls past) :
      Balances settings calls (.closed past) 0 [.aborted (.group fs)]
  | answered {past : Script} {os : List Outcome}
      (hfates : fates settings calls past = os.map .returned) :
      Balances settings calls (.closed past) (if os.any Activity.isDelivered then 1 else 0)
        [.answered (.outcomes os)]
  | unrefreshed {past : Script} {os : List Outcome} {why : Fault}
      (hfates : fates settings calls past = os.map .returned)
      (hsome : os.any Activity.isDelivered = true) :
      Balances settings calls (.closed past) 1 [.aborted (.single why)]

theorem balances_turn (hturn : Turn settings calls stage d deed next)
    (h : Balances settings calls stage k es) :
    Balances settings calls next (k + refreshCount [(d, deed)]) (es ++ deed.ended) := by
  -- A turn fixes the stage before it, and that leaves one balance to start from.
  cases hturn with
  | @hop past d r n e hwaits hreply =>
      cases h with
      | gathering hraised =>
          have hpending := mem_fates_of_waits hwaits r
          rw [hreply] at hpending
          simpa [refreshCount] using
            .gathering (unraised_of_waits hwaits hraised (by simp [hreply])) hpending
  | @broken past d r n f hwaits hreply =>
      cases h
      have hmem := mem_fates_of_waits hwaits r
      rw [hreply] at hmem
      simpa [refreshCount] using .broken (List.cons_ne_nil _ []) (by simpa using hmem)
  | known hwaits hreply hothers =>
      cases h with
      | gathering hraised =>
          simpa [refreshCount] using
            .gathering (unraised_of_waits hwaits hraised (by simp [hreply])) hothers
  | refused hwaits hfates hnone =>
      cases h
      simpa [refreshCount, issued_tell, hnone] using Balances.answered hfates
  | delivered hwaits hfates hsome =>
      cases h
      simpa [refreshCount] using .refreshing hfates hsome
  | unaddressed hwaits hfates hsome =>
      cases h
      simpa [refreshCount] using .unrefreshed hfates hsome
  | listingHop =>
      cases h with
      | refreshing hfates hsome => simpa [refreshCount] using .refreshing hfates hsome
  | listingBroken =>
      cases h with
      | refreshing hfates hsome => simpa [refreshCount] using .unrefreshed hfates hsome
  | settled hreply hsettles hfates =>
      cases h with
      | @refreshing past f address e os' hfates' hsome =>
          obtain rfl := outcomes_unique hfates hfates'
          simpa [refreshCount, issued_tell, issued_settle, hsome] using Balances.answered hfates
  | unsettled =>
      cases h with
      | refreshing hfates hsome =>
          simpa [refreshCount, issued_settle] using .unrefreshed hfates hsome

theorem balances_run (hrun : Run settings calls stage turns last)
    (h : Balances settings calls stage k es) :
    Balances settings calls last (k + refreshCount turns) (es ++ turns.flatMap (·.2.ended)) := by
  induction hrun generalizing k es with
  | stays stage => simpa [refreshCount] using h
  | goesOn hturn hrest ih =>
      have hnext := ih (balances_turn hturn h)
      simpa [refreshCount, Nat.add_assoc] using hnext

theorem Balances.of_answered (h : Balances settings calls last k es) {answer : Answer}
    (hmem : .answered answer ∈ es) :
    ∃ os, answer = .outcomes os ∧ fates settings calls last.past = os.map .returned := by
  cases h with
  | @answered past os hfates =>
      obtain rfl : answer = .outcomes os := by simpa using hmem
      exact ⟨os, rfl, hfates⟩
  | _ => simp at hmem

theorem Balances.count (h : Balances settings calls last k es) :
    k ≤ 1 ∧ (k = 1 ↔ ∃ os : List Outcome, fates settings calls last.past = os.map .returned ∧
      os.any Activity.isDelivered = true) := by
  cases h with
  | @gathering past e hraised hwaits =>
      refine ⟨Nat.zero_le 1, iff_of_false nofun ?_⟩
      rintro ⟨os, hfates, -⟩
      rw [show fates settings calls past = _ from hfates] at hwaits
      simp at hwaits
  | @broken past fs hsome hraised =>
      refine ⟨Nat.zero_le 1, iff_of_false nofun ?_⟩
      rintro ⟨os, hfates, -⟩
      obtain ⟨f, hf⟩ := List.exists_mem_of_ne_nil fs hsome
      have hmem := hraised f hf
      rw [show fates settings calls past = _ from hfates] at hmem
      simp at hmem
  | @answered past os hfates =>
      refine ⟨by split <;> simp, ?_⟩
      constructor
      · intro hone
        exact ⟨os, hfates, by simpa using hone⟩
      · rintro ⟨os', hfates', hsome⟩
        obtain rfl := outcomes_unique hfates hfates'
        exact if_pos hsome
  | @refreshing past f address e os hfates hsome | @unrefreshed past os why hfates hsome =>
      exact ⟨Nat.le_refl 1, iff_of_true rfl ⟨os, hfates, hsome⟩⟩

theorem message_of_answered (hrun : Run settings calls stage turns last) {answer : Answer}
    {turn : Draft × Deed} (hmem : turn ∈ turns) (hanswered : .answered answer ∈ turn.2.ended)
    {message : Value} (hmessage : lastFailure? settings calls last.past = some message) :
    turns.getLast? = some turn ∧ turn.2.after.screen.message = message := by
  induction hrun with
  | stays stage => simp at hmem
  | @goesOn stage next last d deed turns hturn hrest ih =>
      rcases List.mem_cons.mp hmem with rfl | hlater
      · cases hturn with
        | refused | settled =>
            cases hrest with
            | stays => exact ⟨rfl, message_tell _ hmessage⟩
            | goesOn hturn => cases hturn
        | _ => simp at hanswered
      · obtain ⟨hlast, hshown⟩ := ih hlater hmessage
        refine ⟨?_, hshown⟩
        rw [List.getLast?_cons, hlast]
        rfl

theorem message_of_failure (hopening : Balances settings calls stage 0 es) (hpast : stage.past = [])
    (hrun : Run settings calls stage turns last) {os : List Outcome}
    (hfates : fates settings calls last.past = os.map .returned)
    (hmem : .answered (.outcomes os) ∈ es ++ turns.flatMap (·.2.ended)) {why : Failure}
    (hwhy : .error why ∈ os) :
    ∃ message turn, lastFailure? settings calls last.past = some message ∧
      turns.getLast? = some turn ∧ turn.2.after.screen.message = message := by
  obtain ⟨i, hi⟩ := List.mem_iff_getElem?.mp hwhy
  have hfailed : (fates settings calls last.past)[i]? = some (.returned (.error why)) := by
    rw [hfates, List.getElem?_map, hi]
    rfl
  have hsome : (lastFailure? settings calls last.past).isSome :=
    List.getLast?_isSome.mpr (List.ne_nil_of_mem (message_mem_failures hfailed))
  obtain ⟨message, hmessage⟩ := Option.isSome_iff_exists.mp hsome
  rcases List.mem_append.mp hmem with hbefore | hlater
  · obtain ⟨os', hanswer, hnone⟩ := hopening.of_answered hbefore
    obtain rfl := Answer.outcomes.inj hanswer
    have hreturned : Resolution.returned (.error why) ∈ fates settings calls [] := by
      rw [← hpast, hnone]
      exact List.mem_map_of_mem hwhy
    obtain ⟨c, -, hc⟩ := mem_fates_nil.mp hreturned
    exact absurd hc (Call.resolution_nil_ne_returned settings c _)
  · obtain ⟨turn, hturn, hanswered⟩ := List.mem_flatMap.mp hlater
    obtain ⟨hlast, hshown⟩ := message_of_answered hrun hturn hanswered hmessage
    exact ⟨message, turn, hmessage, hlast, hshown⟩

end Upload

end HdfsBrowser
