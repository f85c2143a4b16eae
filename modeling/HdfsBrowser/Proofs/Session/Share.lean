import HdfsBrowser.Proofs.Session.Travel

/-!
# What an owner has in a session

An activity, the requests that wait, and the ways it ended.  Requests that wait
have numbers of their own, so a reply concerns one owner, and whoever has no
activity has no requests that wait.
-/

namespace HdfsBrowser.Session

variable {s : Session} {owner other : Nat}

/-! ## Shares -/

@[ext]
structure Share where
  activity? : Option Activity
  pending : List Pending
  endings : List Ending
  deriving DecidableEq, Repr

def share (s : Session) (owner : Nat) : Share where
  activity? := s.activity? owner
  pending := s.pending.filter (·.owner == owner)
  endings := (s.ended.filter (·.1 == owner)).map (·.2)

theorem sendAll_cons (s : Session) (owner : Nat) (d : Draft) (ds : List Draft) :
    s.sendAll owner (d :: ds) = (s.send owner d).sendAll owner ds := rfl

theorem activity?_setActivity (s : Session) (owner : Nat) (a : Activity) :
    (s.setActivity owner a).activity? owner = some a := by
  have hnone : (s.running.filter (·.1 != owner)).find? (·.1 == owner) = none := by
    rw [List.find?_eq_none]
    simp
  simp only [activity?, setActivity, List.find?_append, hnone]
  simp

theorem activity?_close (s : Session) (owner : Nat) (e : Ending) :
    (s.close owner e).activity? owner = none := by
  simp [activity?, close]

theorem find?_filter_of_ne {running : List (Nat × Activity)} (hne : other ≠ owner) :
    (running.filter (·.1 != other)).find? (·.1 == owner) = running.find? (·.1 == owner) := by
  rw [List.find?_filter]
  congr 1
  funext x
  by_cases hx : x.1 = owner
  · simp [hx, hne.symm]
  · simp [hx]

section Others

variable (hne : other ≠ owner)
include hne

theorem share_send_of_ne (s : Session) (d : Draft) :
    (s.send other d).share owner = s.share owner := by
  simp [share, send, hne, activity?]

theorem share_sendAll_of_ne (s : Session) (ds : List Draft) :
    (s.sendAll other ds).share owner = s.share owner := by
  induction ds generalizing s with
  | nil => rfl
  | cons d ds ih => rw [sendAll_cons, ih, share_send_of_ne hne]

theorem share_setActivity_of_ne (s : Session) (a : Activity) :
    (s.setActivity other a).share owner = s.share owner := by
  simp [share, setActivity, activity?, List.find?_append, find?_filter_of_ne hne, hne]

theorem share_close_of_ne (s : Session) (e : Ending) :
    (s.close other e).share owner = s.share owner := by
  have hpending : (s.pending.filter (·.owner != other)).filter (·.owner == owner) =
      s.pending.filter (·.owner == owner) := by
    rw [List.filter_filter]
    congr 1
    funext p
    by_cases hp : p.owner = owner
    · simp [hp, hne.symm]
    · simp [hp]
  simp [share, close, activity?, find?_filter_of_ne hne, hpending, hne]

theorem share_abort_of_ne (s : Session) (a : Activity) (fs : List Fault) :
    (s.abort other a fs).share owner = s.share owner := by
  unfold abort
  exact share_close_of_ne hne _ _

end Others

/-! ## Numbers of requests -/

structure IsNumbered (s : Session) : Prop where
  increasing : s.pending.Pairwise (·.number < ·.number)
  number_le : ∀ p ∈ s.pending, p.number ≤ s.sent.length

theorem isNumbered_opening (settings : Settings) (fragment : String) :
    (opening settings fragment).IsNumbered := ⟨.nil, by simp [opening]⟩

theorem IsNumbered.of_sublist {t : Session} (h : s.IsNumbered)
    (hpending : t.pending.Sublist s.pending) (hsent : t.sent = s.sent) : t.IsNumbered where
  increasing := h.increasing.sublist hpending
  number_le p hp := hsent ▸ h.number_le p (hpending.subset hp)

theorem isNumbered_send (h : s.IsNumbered) (owner : Nat) (d : Draft) :
    (s.send owner d).IsNumbered where
  increasing := by
    simp only [send]
    rw [List.pairwise_append]
    refine ⟨h.increasing, List.pairwise_singleton _ _, fun p hp q hq => ?_⟩
    obtain rfl := List.mem_singleton.mp hq
    exact Nat.lt_succ_of_le (h.number_le p hp)
  number_le := by
    intro p hp
    simp only [send, List.mem_append, List.mem_singleton, List.length_append,
      List.length_singleton] at hp ⊢
    rcases hp with hold | rfl
    · exact Nat.le_succ_of_le (h.number_le p hold)
    · exact Nat.le_refl _

theorem isNumbered_sendAll (h : s.IsNumbered) (owner : Nat) (ds : List Draft) :
    (s.sendAll owner ds).IsNumbered := by
  induction ds generalizing s with
  | nil => exact h
  | cons d ds ih => exact ih (isNumbered_send h owner d)

theorem isNumbered_setActivity (h : s.IsNumbered) (owner : Nat) (a : Activity) :
    (s.setActivity owner a).IsNumbered := ⟨h.increasing, h.number_le⟩

theorem isNumbered_setConsole (h : s.IsNumbered) (console : Console) :
    { s with console }.IsNumbered := ⟨h.increasing, h.number_le⟩

theorem isNumbered_abort (h : s.IsNumbered) (owner : Nat) (a : Activity) (fs : List Fault) :
    (s.abort owner a fs).IsNumbered := h.of_sublist List.filter_sublist rfl

theorem isNumbered_withdraw (h : s.IsNumbered) (number : Nat) : (s.withdraw number).IsNumbered :=
  h.of_sublist List.filter_sublist rfl

theorem IsNumbered.eq_of_number (h : s.IsNumbered) {p q : Pending} (hp : p ∈ s.pending)
    (hq : q ∈ s.pending) (hnumber : p.number = q.number) : p = q := by
  have hnumbers : (s.pending.map (·.number)).Nodup :=
    (List.pairwise_map.mpr h.increasing).imp Nat.ne_of_lt
  exact List.inj_on_of_nodup_map hnumbers hp hq hnumber

theorem mem_of_pending? {number : Nat} {p : Pending} (h : s.pending? number = some p) :
    p ∈ s.pending ∧ p.number = number :=
  ⟨List.mem_of_find?_eq_some h, by simpa using List.find?_some h⟩

theorem pending?_of_mem (h : s.IsNumbered) {p : Pending} (hp : p ∈ s.pending) :
    s.pending? p.number = some p := by
  have hsome : (s.pending? p.number).isSome := by
    simpa [pending?] using ⟨p, hp, rfl⟩
  obtain ⟨q, hq⟩ := Option.isSome_iff_exists.mp hsome
  obtain ⟨hmem, hnumber⟩ := mem_of_pending? hq
  rw [hq, h.eq_of_number hmem hp hnumber]

theorem pending_perm_withdraw (h : s.IsNumbered) {p : Pending} (hp : p ∈ s.pending) :
    s.pending.Perm (p :: (s.withdraw p.number).pending) := by
  have hnodup : s.pending.Nodup :=
    h.increasing.imp fun hlt heq => Nat.ne_of_lt hlt (congrArg _ heq)
  have hkept : (s.withdraw p.number).pending = s.pending.erase p := by
    rw [hnodup.erase_eq_filter]
    refine List.filter_congr fun q hq => ?_
    have hnumber : q.number = p.number ↔ q = p := ⟨h.eq_of_number hq hp, congrArg _⟩
    simp [bne, hnumber]
  rw [hkept]
  exact List.perm_cons_erase hp

theorem pending_share_withdraw (s : Session) (number owner : Nat) :
    ((s.withdraw number).share owner).pending =
      (s.share owner).pending.filter (·.number != number) :=
  List.filter_comm _ _ s.pending

theorem share_withdraw_of_ne (h : s.IsNumbered) {number : Nat} {p : Pending}
    (hp : s.pending? number = some p) (hne : p.owner ≠ owner) :
    (s.withdraw number).share owner = s.share owner := by
  obtain ⟨hmem, rfl⟩ := mem_of_pending? hp
  have hkept : (s.share owner).pending.filter (·.number != p.number) =
      (s.share owner).pending := by
    rw [List.filter_eq_self]
    intro q hq
    obtain ⟨hq, howner⟩ := List.mem_filter.mp hq
    have hother : q ≠ p := fun heq => hne (by simpa [heq] using howner)
    simpa using fun hnumber => hother (h.eq_of_number hq hmem hnumber)
  have hpending := pending_share_withdraw s p.number owner
  rw [hkept] at hpending
  exact Share.ext rfl hpending rfl

/-! ## Requests that somebody waits for -/

/-- An owner without an activity has no requests that wait. -/
def Share.IsAttended (x : Share) : Prop := x.activity? = none → x.pending = []

theorem isAttended_close (s : Session) (owner : Nat) (e : Ending) :
    ((s.close owner e).share owner).IsAttended := by
  intro _
  simp [share, close]

theorem isAttended_of_activity? {a : Activity} (h : s.activity? owner = some a) :
    (s.share owner).IsAttended := by
  intro hidle
  have hnone : s.activity? owner = none := hidle
  simp [h] at hnone

/-! ## Endings -/

theorem ended_abort (s : Session) (owner : Nat) (a : Activity) (fs : List Fault) :
    (s.abort owner a fs).ended =
      s.ended ++ [(owner, .aborted (a.abandon s.console fs).2)] := rfl

theorem ended_sendAll (s : Session) (owner : Nat) (ds : List Draft) :
    (s.sendAll owner ds).ended = s.ended := by
  induction ds generalizing s with
  | nil => rfl
  | cons d ds ih => exact ih (s.send owner d)

end HdfsBrowser.Session
