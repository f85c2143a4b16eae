import HdfsBrowser.Proofs.CommandLine.Situation
import HdfsBrowser.Proofs.Gateway.Response
import HdfsBrowser.Proofs.Session.Chronicle

/-!
# Courses

The replies of a course may go to its requests in any order.  Whatever the
order, the course goes through situations until a fault ends it; and after
enough replies that end their calls nothing is left of it.
-/

namespace HdfsBrowser

/-! ## Outcomes -/

theorem Draft.speaks_of_resolution [Client] {d : Draft} {replies : List Reply} {o : Outcome}
    (h : d.resolution replies = .returned o) : o.Speaks := by
  unfold resolution at h
  rintro why rfl
  cases hturn : d.exchange.afterAll replies with
  | next e => simp [hturn, resolve] at h
  | done r =>
      simp only [hturn, resolve] at h
      cases hread : Outcome.ofResponse d.operation d.address r with
      | ok o =>
          rw [hread] at h
          obtain rfl := Resolution.returned.inj h
          exact ((ofResponse_gives_or_tells _ _ r).2 why hread).nonempty
      | error f => simp [hread, Resolution.ofRead] at h
  | failed reason =>
      rw [hturn] at h
      cases h
      exact truthy_str (by simp)
  | raised f => simp [hturn, resolve] at h

theorem Draft.resolution_silence [Client] (d : Draft) :
    ∃ o, d.resolution [CommandLine.Course.silence] = .returned o := ⟨_, rfl⟩

namespace CommandLine

open Situation

namespace Course

variable {s t : Session} {owner : Nat} {others : Slots} {console : Console}
  {busy : Option (Activity × Slots)}

/-! ## Faults -/

def IsAborted (s : Session) : Prop := (abortOf? s).isSome

theorem not_isAborted_iff : ¬ IsAborted s ↔ abortOf? s = none := by
  simp [IsAborted]

theorem abortOf?_append {es : List (Nat × Ending)} (h : t.ended = s.ended ++ es) :
    abortOf? t = (abortOf? s).or (es.findSome? fun (_, e) =>
      match e with
      | .aborted why => some why
      | .answered _ => none) := by
  rw [abortOf?, h, List.findSome?_append]
  rfl

theorem IsAborted.append (h : IsAborted s) {es : List (Nat × Ending)}
    (hended : t.ended = s.ended ++ es) : IsAborted t := by
  obtain ⟨why, hwhy⟩ := Option.isSome_iff_exists.mp h
  simp [IsAborted, abortOf?_append hended, hwhy]

theorem isAborted_close (s : Session) (owner : Nat) (why : Abort) :
    IsAborted (s.close owner (.aborted why)) := by
  have hended : (s.close owner (.aborted why)).ended = s.ended ++ [(owner, .aborted why)] := rfl
  rw [IsAborted, abortOf?_append hended]
  cases abortOf? s <;> rfl

theorem abortOf?_close (hclean : abortOf? s = none) (answer : Answer) :
    abortOf? (s.close owner (.answered answer)) = none := by
  have hended : (s.close owner (.answered answer)).ended =
      s.ended ++ [(owner, .answered answer)] := rfl
  rw [abortOf?_append hended, hclean]
  rfl

/-! ## One activity at a time -/

/-- What a session without faults waits for that has at most one activity. -/
structure Stands (s : Session) (c : Console) (busy : Option (Activity × Slots)) : Prop where
  console : s.console = c
  numbered : s.IsNumbered
  clean : abortOf? s = none
  running : s.running.map (·.2) = busy.toList.map (·.1)
  owners : ∀ p ∈ s.pending, p.owner ∈ s.running.map (·.1)
  slots : (s.pending.map fun p => (p.draft.slot, p.draft.operation)).Perm
    ((busy.map (·.2)).getD [])

/-- Nobody but one owner has anything in the session, and the requests of that owner are these. -/
structure Serves (s : Session) (owner : Nat) (others : Slots) : Prop where
  numbered : s.IsNumbered
  clean : abortOf? s = none
  running : ∀ x ∈ s.running, x.1 = owner
  owners : ∀ p ∈ s.pending, p.owner = owner
  slots : (s.pending.map fun p => (p.draft.slot, p.draft.operation)).Perm others

theorem stands_close (h : Serves s owner others) (answer : Answer) :
    Stands (s.close owner (.answered answer)) s.console none := by
  have hrunning : (s.close owner (.answered answer)).running = [] := by
    simpa [Session.close] using h.running
  have hpending : (s.close owner (.answered answer)).pending = [] := by
    simpa [Session.close] using h.owners
  refine ⟨rfl, h.numbered.of_sublist List.filter_sublist rfl, abortOf?_close h.clean answer, ?_, ?_,
    ?_⟩
  · rw [hrunning]
    rfl
  · simp [hpending]
  · rw [hpending]
    exact .refl _

theorem serves_of_idle (h : Stands s console none) (owner : Nat) : Serves s owner [] where
  numbered := h.numbered
  clean := h.clean
  running := by simp [List.map_eq_nil_iff.mp h.running]
  owners p hp := by simpa [List.map_eq_nil_iff.mp h.running] using h.owners p hp
  slots := h.slots

theorem serves_withdraw {p : Pending} (h : Stands s console busy) (hp : p ∈ s.pending) :
    ∃ a slots others, busy = some (a, slots) ∧ s.activity? p.owner = some a ∧
      slots.Perm ((p.draft.slot, p.draft.operation) :: others) ∧
      Serves (s.withdraw p.number) p.owner others := by
  have howner := h.owners p hp
  cases busy with
  | none => simp [List.map_eq_nil_iff.mp h.running] at howner
  | some waiting =>
      obtain ⟨a, slots⟩ := waiting
      obtain ⟨⟨owner, a'⟩, hrunning, rfl⟩ := List.map_eq_singleton_iff.mp h.running
      obtain rfl : p.owner = owner := by simpa [hrunning] using howner
      refine ⟨a', slots, _, rfl, by simp [Session.activity?, hrunning], ?_,
        Session.isNumbered_withdraw h.numbered p.number, h.clean, ?_, ?_, .refl _⟩
      · exact h.slots.symm.trans ((Session.pending_perm_withdraw h.numbered hp).map _)
      · intro y hy
        have hy : y ∈ s.running := hy
        rw [hrunning] at hy
        rw [List.mem_singleton.mp hy]
      · intro q hq
        simpa [hrunning] using h.owners q (List.mem_filter.mp hq).1

theorem stands_send {p : Pending} (h : Stands s console busy) (hp : p ∈ s.pending)
    (e : Exchange) :
    Stands ((s.withdraw p.number).send p.owner { p.draft with exchange := e }) console busy where
  console := h.console
  numbered := Session.isNumbered_send (Session.isNumbered_withdraw h.numbered p.number) p.owner _
  clean := h.clean
  running := h.running
  owners q hq := by
    rcases List.mem_append.mp hq with hold | hnew
    · exact h.owners q (List.mem_filter.mp hold).1
    · rw [List.mem_singleton.mp hnew]
      exact h.owners p hp
  slots := by
    refine List.Perm.trans ?_ h.slots
    refine List.Perm.trans ?_ ((Session.pending_perm_withdraw h.numbered hp).map _).symm
    simp only [Session.send, List.map_append, List.map_cons, List.map_nil]
    exact List.perm_append_comm

theorem pending_sendAll (s : Session) (owner : Nat) (ds : List Draft) :
    (s.sendAll owner ds).pending.map (fun p => (p.owner, p.draft)) =
      s.pending.map (fun p => (p.owner, p.draft)) ++ ds.map (owner, ·) := by
  induction ds generalizing s with
  | nil => simp [Session.sendAll]
  | cons d ds ih => rw [Session.sendAll_cons, ih]; simp [Session.send]

theorem owners_sendAll (h : ∀ p ∈ s.pending, p.owner = owner) (ds : List Draft) :
    ∀ p ∈ (s.sendAll owner ds).pending, p.owner = owner := by
  intro p hp
  have hmem : (p.owner, p.draft) ∈ (s.sendAll owner ds).pending.map fun p => (p.owner, p.draft) :=
    List.mem_map_of_mem hp
  rw [pending_sendAll, List.mem_append] at hmem
  rcases hmem with hold | hnew
  · obtain ⟨q, hq, heq⟩ := List.mem_map.mp hold
    exact (Prod.mk.inj heq).1 ▸ h q hq
  · obtain ⟨d, -, heq⟩ := List.mem_map.mp hnew
    exact (Prod.mk.inj heq).1.symm

/-! ## Courses and situations -/

/-- The course is in a situation, and it begins nothing before a call comes to an outcome. -/
structure Mirrors (c : Course) (x : Situation) : Prop where
  stands : Stands c.session x.console x.busy
  ahead : c.ahead = x.ahead
  waits : x.busy = none → x.ahead = []

theorem Mirrors.over {c : Course} {x : Situation} (h : c.Mirrors x) (hidle : x.busy = none) :
    x = ⟨c.session.console, none, []⟩ := by
  obtain ⟨console, busy, ahead⟩ := x
  obtain rfl : busy = none := hidle
  obtain rfl : ahead = [] := h.waits rfl
  rw [h.stands.console]

variable [Client] {c : Course} {x : Situation}

/-! ## Replies in any order -/

/-- Gives a reply to the request that stands in some place among those that wait. -/
def deliver (c : Course) (place : Nat) (r : Reply) : Course :=
  match c.session.pending[place]?.bind fun p => c.session.answer? p.number r with
  | none => c
  | some s => advance s c.ahead

def deliverAll (c : Course) (script : List (Nat × Reply)) : Course :=
  script.foldl (fun c x => c.deliver x.1 x.2) c

/-- Follows actions to their end: each reply goes to the request in its place, and then nobody
replies. -/
def play (s : Session) (actions : List Action) (script : List (Nat × Reply)) : Course :=
  (advance s actions).deliverAll
    (script ++ List.replicate (actions.foldr (callsOf · + ·) 0) (0, silence))

/-- What a reply makes of a call, if it ends it. -/
def record? (c : Course) (place : Nat) (r : Reply) : Option Record :=
  match c.session.pending[place]? with
  | none => none
  | some p =>
    match p.draft.resolution [r] with
    | .returned o =>
      let after := (c.session.withdraw p.number).release p r
      some ⟨p.draft.operation, o,
        after.console.navigation.committed != c.session.console.navigation.committed⟩
    | _ => none

def recordsOf (c : Course) : List (Nat × Reply) → List Record
  | [] => []
  | (place, r) :: script => (c.record? place r).toList ++ (c.deliver place r).recordsOf script

def records (s : Session) (actions : List Action) (script : List (Nat × Reply)) : List Record :=
  (advance s actions).recordsOf
    (script ++ List.replicate (actions.foldr (callsOf · + ·) 0) (0, silence))

theorem receive_eq : receive = fun c r => c.deliver 0 r := by
  funext c r
  unfold receive deliver Session.oldest?
  rw [List.head?_eq_getElem?]
  cases c.session.pending[0]? <;> rfl

theorem run_eq (s : Session) (actions : List Action) (replies : List Reply) :
    run s actions replies = play s actions (replies.map (Prod.mk 0)) := by
  have hall (c : Course) (rs : List Reply) :
      c.receiveAll rs = c.deliverAll (rs.map (Prod.mk 0)) := by
    simp only [receiveAll, deliverAll, List.foldl_map, receive_eq]
  rw [run, play, hall, List.map_append, List.map_replicate]

/-! ## Faults end a course -/

theorem isAborted_advance (h : IsAborted s) (actions : List Action) :
    (advance s actions).session = s := by
  have hfault : (abortOf? s).isNone = false := by
    simpa [IsAborted] using h
  cases actions with
  | nil => rfl
  | cons action rest => simp [advance, hfault]

theorem isAborted_deliver {c : Course} (h : IsAborted c.session) (place : Nat) (r : Reply) :
    IsAborted (c.deliver place r).session := by
  unfold deliver
  cases hp : c.session.pending[place]?.bind fun p => c.session.answer? p.number r with
  | none => exact h
  | some s =>
      obtain ⟨p, -, hanswer⟩ := Option.bind_eq_some_iff.mp hp
      have haborted : IsAborted s := by
        rcases Session.answer?_cases hanswer with ⟨q, -, rfl⟩ | ⟨-, abandoned, rfl⟩
        · obtain ⟨es, hended⟩ := Session.ended_release (c.session.withdraw p.number) q r
          exact IsAborted.append (s := c.session) h hended
        · exact h
      show IsAborted (advance _ c.ahead).session
      rwa [isAborted_advance haborted]

theorem isAborted_deliverAll {c : Course} (h : IsAborted c.session)
    (script : List (Nat × Reply)) : IsAborted (c.deliverAll script).session := by
  induction script generalizing c with
  | nil => exact h
  | cons x script ih => exact ih (isAborted_deliver h x.1 x.2)

/-! ## What an activity waits for -/

theorem slots_ofCalls {settings : Settings} {calls : List Call} {slot : Nat}
    (h : (Draft.ofCalls settings slot calls).2 = []) :
    (Draft.ofCalls settings slot calls).1.map (fun d => (d.slot, d.operation)) =
      calls.mapIdx fun i c => (i + slot, c.operation) := by
  induction calls generalizing slot with
  | nil => rw [Draft.ofCalls_nil]; rfl
  | cons c calls ih =>
      rw [Draft.ofCalls_cons] at h ⊢
      cases hdraft : Draft.ofCall settings slot c with
      | error why => simp [hdraft] at h
      | ok d =>
          rw [hdraft] at h
          obtain ⟨address, request, -, rfl⟩ := Call.exists_of_ofCall hdraft
          have hrest := ih h
          simp only [List.map_cons, List.mapIdx_cons, hrest, Nat.zero_add, Nat.add_assoc,
            Nat.add_comm 1]

theorem stands_sendAll (h : Serves s owner others) (a : Activity) {calls : List Call}
    (hnone : (Draft.ofCalls s.console.settings 0 calls).2 = []) :
    Stands ((s.setActivity owner a).sendAll owner
      (Draft.sort (Draft.ofCalls s.console.settings 0 calls).1)) s.console
      (some (a, others ++ slotsOf calls)) := by
  let drafts := Draft.sort (Draft.ofCalls s.console.settings 0 calls).1
  let sending := (s.setActivity owner a).sendAll owner drafts
  obtain ⟨hrunning, hconsole⟩ := Session.sendAll_running (s.setActivity owner a) owner drafts
  have halone : sending.running = [(owner, a)] := by
    rw [hrunning]
    simpa [Session.setActivity] using h.running
  refine ⟨hconsole, ?_, ?_, ?_, fun p hp => ?_, ?_⟩
  · exact Session.isNumbered_sendAll (Session.isNumbered_setActivity h.numbered owner a) owner _
  · rw [abortOf?, Session.ended_sendAll]
    exact h.clean
  · rw [halone]
    rfl
  · rw [halone, owners_sendAll (s := s.setActivity owner a) h.owners drafts p hp]
    exact List.mem_singleton_self owner
  · have hpending := pending_sendAll (s.setActivity owner a) owner drafts
    have hslots := congrArg (List.map fun x => (x.2.slot, x.2.operation)) hpending
    simp only [List.map_map, List.map_append, Function.comp_def] at hslots
    rw [hslots]
    refine h.slots.append (((Draft.sort_perm _).map _).trans (.of_eq ?_))
    exact slots_ofCalls hnone

theorem stands_wait (h : Serves s owner others) (a : Activity) (calls : List Call) :
    IsAborted (s.wait owner a calls) ∨
      Stands (s.wait owner a calls) s.console (some (a, others ++ slotsOf calls)) := by
  unfold Session.wait
  dsimp only
  split
  · next hempty => exact .inr (stands_sendAll h a (List.isEmpty_iff.mp hempty))
  · exact .inl (isAborted_close _ owner _)

theorem stands_proceed (h : Serves s owner others) (r : Console × Progress) :
    IsAborted (s.proceed owner r) ∨
      ∃ busy, busyAfter others r.2 = some busy ∧ Stands (s.proceed owner r) r.1 busy := by
  obtain ⟨c, progress⟩ := r
  have hkept : Serves { s with console := c } owner others :=
    ⟨Session.isNumbered_setConsole h.numbered c, h.clean, h.running, h.owners, h.slots⟩
  cases progress with
  | waiting a calls =>
      rcases stands_wait hkept a calls with haborted | hstands
      · exact .inl haborted
      · exact .inr ⟨_, rfl, hstands⟩
  | finished answer => exact .inr ⟨none, rfl, stands_close hkept answer⟩
  | aborted why => exact .inl (isAborted_close _ owner why)

/-! ## From one situation to the next -/

theorem mirrors_advance (h : Stands s console busy) (actions : List Action) :
    IsAborted (advance s actions).session ∨
      ∃ y, (advance s actions).Mirrors y ∧ Reaches ⟨console, busy, actions⟩ [] y := by
  induction actions generalizing s console busy with
  | nil => exact .inr ⟨⟨console, busy, []⟩, ⟨h, rfl, fun _ => rfl⟩, .refl _⟩
  | cons action actions ih =>
      cases busy with
      | some waiting =>
          have hrunning : s.running.isEmpty = false := by
            have hlength := congrArg List.length h.running
            simp only [List.length_map, Option.toList_some, List.length_singleton] at hlength
            cases hempty : s.running with
            | nil => simp [hempty] at hlength
            | cons => rfl
          have hstays : advance s (action :: actions) = ⟨s, action :: actions⟩ := by
            simp [advance, hrunning]
          rw [hstays]
          exact .inr ⟨⟨console, some waiting, action :: actions⟩, ⟨h, rfl, nofun⟩, .refl _⟩
      | none =>
          have hrunning : s.running = [] := List.map_eq_nil_iff.mp h.running
          have hgoes : advance s (action :: actions) =
              advance (s.start s.ended.length action) actions := by
            simp [advance, hrunning, h.clean]
          obtain rfl := h.console
          rw [hgoes]
          rcases stands_proceed (serves_of_idle h s.ended.length)
            (Activity.begin s.console action) with haborted | ⟨busy, hbusy, hstands⟩
          · have hstarted : IsAborted (s.start s.ended.length action) := haborted
            rw [isAborted_advance hstarted]
            exact .inl hstarted
          · rcases ih hstands with haborted | ⟨y, hmirrors, hreaches⟩
            · exact .inl haborted
            · exact .inr ⟨y, hmirrors, .head (.begins hbusy) hreaches⟩

theorem deliver_of_mem {place : Nat} {p : Pending} (h : c.session.IsNumbered)
    (hp : c.session.pending[place]? = some p) (r : Reply) :
    c.deliver place r = advance ((c.session.withdraw p.number).release p r) c.ahead := by
  have hanswer : c.session.answer? p.number r =
      some ((c.session.withdraw p.number).release p r) := by
    rw [Session.answer?, Session.pending?_of_mem h (List.mem_of_getElem? hp)]
  simp [deliver, hp, hanswer]

/-- A reply ends the course by a fault, or it leaves it in a situation that is reached by what the
reply makes of its call. -/
theorem mirrors_deliver (h : c.Mirrors x) (place : Nat) (r : Reply) :
    IsAborted (c.deliver place r).session ∨
      ∃ y, (c.deliver place r).Mirrors y ∧ Reaches x (c.record? place r).toList y := by
  obtain ⟨console, busy, ahead⟩ := x
  obtain ⟨hstands, rfl, -⟩ := id h
  cases hp : c.session.pending[place]? with
  | none => exact .inr ⟨_, by simpa [deliver, hp] using h, by simpa [record?, hp] using .refl _⟩
  | some p =>
      have hmem := List.mem_of_getElem? hp
      obtain ⟨a, slots, others, rfl, hactivity, hslots, hserves⟩ := serves_withdraw hstands hmem
      have hkept : (c.session.withdraw p.number).activity? p.owner = some a := hactivity
      obtain rfl := hstands.console
      rw [deliver_of_mem hstands.numbered hp]
      simp only [record?, hp]
      rw [Session.release_of_resolution hkept]
      cases hresolution : p.draft.resolution [r] with
      | pending e => exact mirrors_advance (stands_send hstands hmem e) c.ahead
      | raised f =>
          have haborted : IsAborted ((c.session.withdraw p.number).abort p.owner a [f]) :=
            isAborted_close _ p.owner _
          exact .inl (by rwa [isAborted_advance haborted])
      | returned o =>
          let resumed := a.resume c.session.console p.draft.slot o
          let next := (c.session.withdraw p.number).proceed p.owner resumed
          change IsAborted (advance next c.ahead).session ∨
            ∃ y, (advance next c.ahead).Mirrors y ∧ Reaches _ [⟨p.draft.operation, o,
              next.console.navigation.committed !=
                c.session.console.navigation.committed⟩] y
          rcases stands_proceed hserves resumed with haborted | ⟨busy, hbusy, hnext⟩
          · have hended : IsAborted next := haborted
            rw [isAborted_advance hended]
            exact .inl hended
          · rcases mirrors_advance hnext c.ahead with haborted | ⟨y, hy, hreaches⟩
            · exact .inl haborted
            · rw [show next.console = resumed.1 from hnext.console]
              have hspeaks := Draft.speaks_of_resolution hresolution
              exact .inr ⟨y, hy, (Reaches.single (.returns hslots hspeaks hbusy)).trans hreaches⟩

theorem mirrors_deliverAll (h : c.Mirrors x) (script : List (Nat × Reply)) :
    IsAborted (c.deliverAll script).session ∨
      ∃ y, (c.deliverAll script).Mirrors y ∧ Reaches x (c.recordsOf script) y := by
  induction script generalizing c x with
  | nil => exact .inr ⟨x, h, .refl x⟩
  | cons first script ih =>
      obtain ⟨place, r⟩ := first
      rcases mirrors_deliver h place r with haborted | ⟨y, hy, hxy⟩
      · exact .inl (isAborted_deliverAll haborted script)
      · rcases ih hy with haborted | ⟨z, hz, hyz⟩
        · exact .inl haborted
        · exact .inr ⟨z, hz, hxy.trans hyz⟩

/-! ## The end of a course -/

theorem record?_silence (h : c.Mirrors x) (hsound : x.IsSound) (hbusy : x.busy ≠ none) :
    ∃ record, c.record? 0 silence = some record := by
  obtain ⟨⟨a, slots⟩, hwaiting⟩ := Option.ne_none_iff_exists'.mp hbusy
  have hslots := h.stands.slots
  rw [hwaiting] at hslots
  cases hpending : c.session.pending with
  | nil =>
      rw [hpending] at hslots
      exact absurd hslots.nil_eq.symm (ne_nil_of_fits (hsound a slots hwaiting))
  | cons p rest =>
      obtain ⟨o, hresolution⟩ := p.draft.resolution_silence
      simp only [record?, hpending, List.getElem?_cons_zero, hresolution]
      exact ⟨_, rfl⟩

theorem deliverAll_of_idle (h : c.Mirrors x) (hidle : x.busy = none)
    (script : List (Nat × Reply)) : c.deliverAll script = c := by
  have hslots := h.stands.slots
  rw [hidle] at hslots
  have hnone : c.session.pending = [] := List.map_eq_nil_iff.mp hslots.eq_nil
  induction script with
  | nil => rfl
  | cons first script ih =>
      have hstays : c.deliver first.1 first.2 = c := by simp [deliver, hnone]
      exact (congrArg (deliverAll · script) hstays).trans ih

theorem over_of_silence (h : c.Mirrors x) (hsound : x.IsSound) {n : Nat} (hbudget : x.budget ≤ n) :
    let d := c.deliverAll (List.replicate n (0, silence))
    IsAborted d.session ∨ d.Mirrors ⟨d.session.console, none, []⟩ := by
  by_cases hidle : x.busy = none
  · rw [deliverAll_of_idle h hidle]
    exact .inr (h.over hidle ▸ h)
  · induction n generalizing c x with
    | zero =>
        obtain ⟨⟨a, slots⟩, hwaiting⟩ := Option.ne_none_iff_exists'.mp hidle
        have hleft := callsLeft_pos a.phase slots
        simp only [budget, hwaiting, Option.elim_some] at hbudget
        omega
    | succ n ih =>
        obtain ⟨record, hrecord⟩ := record?_silence h hsound hidle
        rcases mirrors_deliver h 0 silence with haborted | ⟨y, hy, hreaches⟩
        · exact .inl (isAborted_deliverAll haborted _)
        · rw [hrecord] at hreaches
          obtain ⟨hnext, hless⟩ := isSound_reaches hreaches hsound
          have hbudget : y.budget ≤ n := by
            simp only [Option.toList_some, List.length_singleton] at hless
            omega
          by_cases hover : y.busy = none
          · have hstays := deliverAll_of_idle hy hover (List.replicate n (0, silence))
            simp only [List.replicate_succ, deliverAll, List.foldl_cons] at hstays ⊢
            rw [hstays]
            exact .inr (hy.over hover ▸ hy)
          · exact ih hy hnext hbudget hover

theorem reaches_play (h : Stands s console none) (actions : List Action)
    (script : List (Nat × Reply)) (hclean : abortOf? (play s actions script).session = none) :
    Reaches ⟨console, none, actions⟩ (records s actions script)
      ⟨(play s actions script).session.console, none, []⟩ := by
  have hfinal : ¬ IsAborted (play s actions script).session := not_isAborted_iff.mpr hclean
  let silences : List (Nat × Reply) :=
    List.replicate (actions.foldr (callsOf · + ·) 0) (0, silence)
  have hplay : play s actions script =
      ((advance s actions).deliverAll script).deliverAll silences := List.foldl_append
  rcases mirrors_advance h actions with haborted | ⟨x, hx, hbegun⟩
  · exact absurd (isAborted_deliverAll haborted _) hfinal
  · obtain ⟨hsound, hbudget⟩ := isSound_reaches hbegun (isSound_idle console actions)
    rcases mirrors_deliverAll hx script with haborted | ⟨y, hy, hscript⟩
    · exact absurd (hplay ▸ isAborted_deliverAll haborted silences) hfinal
    · obtain ⟨hlast, hleft⟩ := isSound_reaches hscript hsound
      have hless : y.budget ≤ actions.foldr (callsOf · + ·) 0 := by
        simp only [budget, Option.elim_none, Nat.zero_add, List.length_nil, Nat.add_zero] at hbudget
        exact (Nat.le_add_right _ _).trans (hleft.trans hbudget)
      have hover : IsAborted (play s actions script).session ∨
          (play s actions script).Mirrors ⟨(play s actions script).session.console, none, []⟩ :=
        hplay ▸ over_of_silence hy hlast hless
      rcases mirrors_deliverAll hx (script ++ silences) with haborted | ⟨z, hz, hrecords⟩
      · exact absurd haborted hfinal
      · have hidle : z.busy = none := by
          have hrunning := (hover.resolve_left hfinal).stands.running
          have hsame : z.busy.toList.map (·.1) = [] := hz.stands.running.symm.trans hrunning
          simpa using hsame
        exact hz.over hidle ▸ hbegun.trans hrecords

end Course

end CommandLine

end HdfsBrowser
