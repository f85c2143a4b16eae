import HdfsBrowser.Proofs.Gateway.Fates
import HdfsBrowser.Proofs.Session.Deed

/-!
# Requests that are sent together

The calls of an activity are all sent in one step, in an order of their own,
and none of them waits for the answer to another.  When an address is refused,
the activity ends in that same step; the requests of the other calls are sent
all the same.
-/

namespace HdfsBrowser

/-! ## The order of sending -/

namespace Draft

theorem insertSorted_perm (d : Draft) (ds : List Draft) : (insertSorted d ds).Perm (d :: ds) := by
  induction ds with
  | nil => exact .refl _
  | cons e ds ih =>
      unfold insertSorted
      split
      · exact .refl _
      · exact (ih.cons e).trans (.swap d e ds)

theorem sort_perm (ds : List Draft) : (sort ds).Perm ds := by
  suffices h : ∀ sorted : List Draft,
      (ds.foldl (fun sorted d => insertSorted d sorted) sorted).Perm (ds ++ sorted) by
    simpa [sort] using h []
  induction ds with
  | nil => exact fun sorted => .refl _
  | cons d ds ih =>
      intro sorted
      exact (ih _).trans (((insertSorted_perm d sorted).append_left ds).trans List.perm_middle)

/-! ## The calls of an activity -/

theorem requests_ofCalls [Client] (settings : Settings) (slot : Nat) (calls : List Call) :
    (ofCalls settings slot calls).1.map (·.request) =
      calls.filterMap (Call.opening? settings) := by
  induction calls generalizing slot with
  | nil => rw [ofCalls_nil]; rfl
  | cons c calls ih =>
      rw [ofCalls_cons, List.filterMap_cons, ← ih (slot + 1), Call.ofCall_eq, Call.opening?]
      cases c.request settings <;> rfl

theorem fst_ofCalls [Client] (settings : Settings) (slot : Nat) (calls : List Call) :
    (ofCalls settings slot calls).1 =
      (calls.mapIdx fun i c => c.leftover settings (i + slot) []).reduceOption := by
  induction calls generalizing slot with
  | nil => rw [ofCalls_nil]; rfl
  | cons c calls ih =>
      have hrest : (calls.mapIdx fun i c => c.leftover settings (i + (slot + 1)) []) =
          calls.mapIdx fun i c => c.leftover settings (i + 1 + slot) [] := by
        simp only [Nat.add_assoc, Nat.add_comm 1]
      rw [ofCalls_cons, ih, hrest, List.mapIdx_cons, Nat.zero_add, Call.leftover_nil]
      cases ofCall settings slot c <;> rfl

theorem mem_snd_ofCalls [Client] {settings : Settings} (slot : Nat) {calls : List Call}
    {f : Fault} :
    f ∈ (ofCalls settings slot calls).2 ↔ ∃ c ∈ calls, c.resolution settings [] = .raised f := by
  induction calls generalizing slot with
  | nil => simp [ofCalls_nil]
  | cons c calls ih =>
      rw [ofCalls_cons, List.exists_mem_cons_iff, ← ih (slot + 1), Call.resolution_nil,
        Call.ofCall_eq]
      cases c.request settings with
      | ok sent => simp [Except.map]
      | error why => simp [Except.map, eq_comm]

end Draft

namespace Session

variable {s : Session} {owner : Nat} {a : Activity}

theorem sent_sendAll (s : Session) (owner : Nat) (ds : List Draft) :
    (s.sendAll owner ds).sent = s.sent ++ ds.map (·.request) := by
  induction ds generalizing s with
  | nil => simp [sendAll]
  | cons d ds ih => rw [sendAll_cons, ih]; simp [send]

theorem pending_sendAll (s : Session) (owner : Nat) (ds : List Draft) :
    ((s.sendAll owner ds).share owner).pending.map (·.draft) =
      (s.share owner).pending.map (·.draft) ++ ds := by
  induction ds generalizing s with
  | nil => simp [sendAll]
  | cons d ds ih => rw [sendAll_cons, ih]; simp [share, send]

structure Share.Gathers (x : Share) (a : Activity) (ds : List Draft) : Prop where
  activity : x.activity? = some a
  pending : (x.pending.map (·.draft)).Perm ds

theorem gathers_withdraw (hnumbered : s.IsNumbered) {ds : List Draft}
    (hgathers : (s.share owner).Gathers a ds) {p : Pending} (hp : p ∈ (s.share owner).pending) :
    ∃ rest, (p.draft :: rest).Perm ds ∧ ((s.withdraw p.number).share owner).Gathers a rest := by
  obtain ⟨hmem, howner⟩ := List.mem_filter.mp hp
  have hperm : (s.share owner).pending.Perm
      (p :: ((s.withdraw p.number).share owner).pending) := by
    have hall := (pending_perm_withdraw hnumbered hmem).filter fun q => q.owner == owner
    rwa [List.filter_cons, if_pos howner] at hall
  have hdrafts := hperm.map fun q : Pending => q.draft
  exact ⟨_, hdrafts.symm.trans hgathers.pending, hgathers.activity, .refl _⟩

theorem gathers_send {ds : List Draft} (hgathers : (s.share owner).Gathers a ds) (d : Draft) :
    ((s.send owner d).share owner).Gathers a (ds ++ [d]) where
  activity := hgathers.activity
  pending := by
    have hsent := pending_sendAll s owner [d]
    exact hsent ▸ hgathers.pending.append_right [d]

theorem proceed_waiting_nil [Client] (s : Session) (owner : Nat) (a : Activity) :
    s.proceed owner (s.console, .waiting a []) = s.setActivity owner a := by
  unfold proceed wait
  dsimp only
  rw [Draft.ofCalls_nil]
  rfl

theorem gathers_setActivity {ds : List Draft}
    (hpending : ((s.share owner).pending.map (·.draft)).Perm ds) (a : Activity) :
    ((s.setActivity owner a).share owner).Gathers a ds :=
  ⟨activity?_setActivity s owner a, hpending⟩

/-- Calls that are made together are all sent; then the owner waits, or it has come to its end
because addresses were refused. -/
theorem wait_calls [Client] (hpending : (s.share owner).pending = []) (a : Activity)
    (calls : List Call) :
    let settings := s.console.settings
    let drafts := (leftovers settings calls []).reduceOption
    let t := s.wait owner a calls
    (∃ requests, t.sent = s.sent ++ requests ∧
      requests.Perm (calls.filterMap (Call.opening? settings))) ∧
      t.console.navigation = s.console.navigation ∧
    (((∀ f, .raised f ∉ fates settings calls []) ∧ t.ended = s.ended ∧
        (t.share owner).Gathers a drafts) ∨
      ∃ fs, fs ≠ [] ∧ (∀ f ∈ fs, .raised f ∈ fates settings calls []) ∧
        t.ended = s.ended ++ [(owner, .aborted (a.abandon s.console fs).2)] ∧
        (t.share owner).IsIdle) := by
  intro settings drafts t
  let drafted := Draft.ofCalls settings 0 calls
  let sending := (s.setActivity owner a).sendAll owner (Draft.sort drafted.1)
  have hconsole : sending.console = s.console :=
    (sendAll_running (s.setActivity owner a) owner _).2
  have hdrafts : (Draft.sort drafted.1).Perm drafts := by
    refine (Draft.sort_perm _).trans (.of_eq ?_)
    exact Draft.fst_ofCalls settings 0 calls
  have hsent : sending.sent = s.sent ++ (Draft.sort drafted.1).map (·.request) :=
    sent_sendAll (s.setActivity owner a) owner _
  have hrequests : ((Draft.sort drafted.1).map (·.request)).Perm
      (calls.filterMap (Call.opening? settings)) :=
    ((Draft.sort_perm _).map _).trans (.of_eq (Draft.requests_ofCalls settings 0 calls))
  have hfaults : ∀ f, f ∈ drafted.2 ↔ .raised f ∈ fates settings calls [] := fun f => by
    rw [Draft.mem_snd_ofCalls, mem_fates_nil]
  by_cases hnone : drafted.2 = []
  · have ht : t = sending := if_pos (by simpa using hnone)
    rw [ht]
    refine ⟨⟨_, hsent, hrequests⟩, by rw [hconsole], .inl ⟨fun f hf => ?_, ?_, ?_, ?_⟩⟩
    · simpa [hnone] using (hfaults f).mpr hf
    · exact ended_sendAll (s.setActivity owner a) owner _
    · simp only [share, activity?, sending, (sendAll_running (s.setActivity owner a) owner _).1]
      exact activity?_setActivity s owner a
    · have hset : ((s.setActivity owner a).share owner).pending = [] := hpending
      rw [pending_sendAll, hset]
      exact hdrafts
  · have ht : t = sending.abort owner a drafted.2 := if_neg (by simpa using hnone)
    have hends := endsBy_abort sending owner a drafted.2
    rw [ht]
    refine ⟨⟨_, hends.sent.trans hsent, hrequests⟩, by rw [hends.navigation, hconsole],
      .inr ⟨drafted.2, hnone, fun f hf => (hfaults f).mp hf, ?_, hends.idle⟩⟩
    rw [hends.ended, hconsole]
    exact congrArg (· ++ _) (ended_sendAll (s.setActivity owner a) owner _)

end Session

end HdfsBrowser
