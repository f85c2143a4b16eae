import HdfsBrowser.Proofs.Path.Normal
import HdfsBrowser.Session.Navigation

/-!
# Journeys

Navigation together with the listings that are on their way, and what can
happen to both: a wish to move, a selection, an answer to any one of the
listings in any order, the loss of one, and what others do to the screen and
to the address.  In whatever order events come, the three counters stay in
order, and they alone tell the status.
-/

namespace HdfsBrowser

/-! ## Answers -/

inductive Verdict where
  | shows (l : Listing)
  | complains (message : Value)
  /-- A fault that is no matter of the listing, and that navigation does not take care of. -/
  | breaks (why : Fault)
  deriving DecidableEq, Repr

def Fetch.verdict (f : Fetch) : Outcome → Verdict
  | .error why => .complains why.message
  | .ok payload =>
    match Listing.ofPayload f.target payload with
    | .ok l => .shows l
    | .error why =>
      if why.isMalformed then .complains (.str (Navigation.unreadable f.target why))
      else .breaks why

namespace Navigation

def heed (n : Navigation) (f : Fetch) : Verdict → Navigation
  | .shows l => (n.commit f l).1
  | .complains message => n.fail f message
  | .breaks _ => n

theorem settle_fst (n : Navigation) (f : Fetch) (o : Outcome) :
    (n.settle f o).1 = if f.number < n.settled then n else n.heed f (f.verdict o) := by
  unfold settle
  split
  · rfl
  · cases o with
    | error why => rfl
    | ok payload =>
        cases hlisting : Listing.ofPayload f.target payload with
        | ok l => simp [Fetch.verdict, heed, hlisting]
        | error why =>
            by_cases hmalformed : why.isMalformed <;>
              simp [Fetch.verdict, heed, hlisting, hmalformed]

end Navigation

/-! ## Counters -/

structure Standing where
  status : Status
  issued : Nat
  committed : Nat
  settled : Nat
  directory : String
  deriving DecidableEq, Repr

namespace Navigation

def standing (n : Navigation) : Standing :=
  ⟨n.status, n.issued, n.committed, n.settled, n.directory⟩

@[simp] theorem standing_publish (n : Navigation) (directory : String) :
    (n.publish directory).standing = n.standing := by
  unfold publish
  split <;> rfl

theorem standing_fail (n : Navigation) (f : Fetch) (message : Value) :
    (n.fail f message).standing =
      { n.standing with
        settled := f.number
        status := if f.number = n.issued then .failed else n.status } := rfl

theorem standing_commit (n : Navigation) (f : Fetch) (l : Listing) :
    (n.commit f l).1.standing =
      ⟨if f.number = n.issued then .loaded else n.status, n.issued, f.number, f.number,
        f.target⟩ := by
  change (n.enter f).standing = _
  unfold enter
  rw [standing_publish]
  rfl

/-- What a wish to move may lead to: nothing that the counters know of, or the next listing. -/
inductive Leads (n : Navigation) : Navigation × Move → Prop
  | stay {m : Navigation} {moved : Bool} (hstanding : m.standing = n.standing) :
      Leads n (m, .stay moved)
  | fetch {m : Navigation} {f : Fetch} (hnumber : f.number = n.issued + 1)
      (htarget : Path.normalize f.target = f.target)
      (hstanding : m.standing =
        { n.standing with issued := n.issued + 1, status := .loading }) :
      Leads n (m, .fetch f)

theorem Leads.of_standing {n n' : Navigation} {m : Navigation × Move} (h : Leads n m)
    (hstanding : n.standing = n'.standing) : Leads n' m := by
  have hissued : n.issued = n'.issued := congrArg Standing.issued hstanding
  cases h with
  | stay hstay => exact .stay (hstay.trans hstanding)
  | fetch hnumber htarget hfetch =>
      refine .fetch (hissued ▸ hnumber) htarget ?_
      rw [hfetch, hstanding, hissued]

theorem leads_issue (n : Navigation) {target : String}
    (htarget : Path.normalize target = target) : Leads n (n.issue target) :=
  .fetch rfl htarget rfl

theorem leads_navigate (n : Navigation) (path : String) (force : Bool) :
    Leads n (n.navigate path force) := by
  unfold navigate
  dsimp only
  split
  · exact .stay rfl
  · exact leads_issue n (Path.normalize_normalize path)

theorem leads_refresh (n : Navigation) : Leads n n.refresh :=
  leads_navigate n n.directory true

theorem leads_start (n : Navigation) : Leads n n.start := by
  unfold start
  dsimp only
  split
  · exact (leads_navigate _ _ true).of_standing (standing_publish n _)
  · exact leads_navigate n _ true

theorem leads_hashChanged (n : Navigation) (fragment : String) :
    Leads n (n.hashChanged fragment) := by
  unfold hashChanged
  split
  · exact .stay rfl
  · split
    · exact .stay rfl
    · exact (leads_navigate _ fragment false).of_standing rfl

end Navigation

/-! ## Events -/

structure Journey where
  place : Navigation
  ahead : List Fetch
  deriving DecidableEq, Repr

namespace Journey

inductive Event where
  | start
  | refresh
  | navigate (path : String) (force : Bool)
  | hashChanged (fragment : String)
  | select (path name : Option String)
  | answer (number : Nat) (o : Outcome)
  /-- The listing with a number ends without an answer. -/
  | lose (number : Nat)
  | setFragment (fragment : String)
  | setScreen (screen : Screen)

def opening (fragment : String) : Journey := ⟨.opening fragment, []⟩

def follow (j : Journey) : Navigation × Move → Journey
  | (n, .stay _) => ⟨n, j.ahead⟩
  | (n, .fetch f) => ⟨n, j.ahead ++ [f]⟩

def fetch? (j : Journey) (number : Nat) : Option Fetch := j.ahead.find? (·.number == number)

def without (j : Journey) (number : Nat) : List Fetch := j.ahead.filter (·.number != number)

def answer (j : Journey) (number : Nat) (o : Outcome) : Journey :=
  match j.fetch? number with
  | some f => ⟨(j.place.settle f o).1, j.without number⟩
  | none => j

def step (j : Journey) : Event → Journey
  | .start => j.follow j.place.start
  | .refresh => j.follow j.place.refresh
  | .navigate path force => j.follow (j.place.navigate path force)
  | .hashChanged fragment => j.follow (j.place.hashChanged fragment)
  | .select path name => ⟨j.place.select path name, j.ahead⟩
  | .answer number o => j.answer number o
  | .lose number => ⟨j.place, j.without number⟩
  | .setFragment fragment => ⟨j.place.setFragment fragment, j.ahead⟩
  | .setScreen screen => ⟨{ j.place with screen }, j.ahead⟩

def run (j : Journey) (events : List Event) : Journey := events.foldl step j

@[simp] theorem run_nil (j : Journey) : j.run [] = j := rfl

@[simp] theorem run_cons (j : Journey) (e : Event) (events : List Event) :
    j.run (e :: events) = (j.step e).run events := rfl

theorem mem_of_fetch? {j : Journey} {number : Nat} {f : Fetch} (h : j.fetch? number = some f) :
    f ∈ j.ahead ∧ f.number = number :=
  ⟨List.mem_of_find?_eq_some h, by simpa using List.find?_some h⟩

end Journey

/-! ## Order -/

def Status.ofCounters (issued committed settled : Nat) : Status :=
  if issued = 0 then .idle
  else if settled < issued then .loading
  else if committed = settled then .loaded
  else .failed

section OfCounters

variable {issued committed settled : Nat}

theorem Status.ofCounters_idle_iff : Status.ofCounters issued committed settled = .idle ↔
    issued = 0 := by
  unfold Status.ofCounters
  split_ifs with hnone hopen hshown
  all_goals simp [hnone]

theorem Status.ofCounters_loading_iff :
    Status.ofCounters issued committed settled = .loading ↔ settled < issued := by
  unfold Status.ofCounters
  split_ifs with hnone hopen hshown
  · simp [hnone]
  · simp [hopen]
  · simp [hopen]
  · simp [hopen]

theorem Status.ofCounters_loaded_iff (hsettled : settled ≤ issued) :
    Status.ofCounters issued committed settled = .loaded ↔
      0 < committed ∧ committed = settled ∧ settled = issued := by
  unfold Status.ofCounters
  split_ifs with hnone hopen hshown
  · simp
    omega
  · simp
    omega
  · simp
    omega
  · simp [hshown]

theorem Status.ofCounters_failed_iff (hcommitted : committed ≤ settled)
    (hsettled : settled ≤ issued) :
    Status.ofCounters issued committed settled = .failed ↔
      committed < settled ∧ settled = issued := by
  unfold Status.ofCounters
  split_ifs with hnone hopen hshown
  · simp
    omega
  · simp
    omega
  · simp [hshown]
  · simp
    omega

end OfCounters

/-- The counters are in order and tell the status, the directory is normal, and every listing on
its way has a number of its own that was issued and is not settled. -/
structure Orderly (s : Standing) (ahead : List Fetch) : Prop where
  committed_le : s.committed ≤ s.settled
  settled_le : s.settled ≤ s.issued
  status_eq : s.status = Status.ofCounters s.issued s.committed s.settled
  directory_normal : Path.normalize s.directory = s.directory
  number_le : ∀ f ∈ ahead, f.number ≤ s.issued
  number_ne : ∀ f ∈ ahead, f.number ≠ s.settled
  numbers_differ : ahead.Pairwise (·.number ≠ ·.number)
  targets_normal : ∀ f ∈ ahead, Path.normalize f.target = f.target

namespace Orderly

variable {s : Standing} {ahead : List Fetch} {f : Fetch}

theorem opening : Orderly ⟨.idle, 0, 0, 0, Path.root⟩ [] where
  committed_le := Nat.le_refl 0
  settled_le := Nat.le_refl 0
  status_eq := rfl
  directory_normal := Path.normalize_root
  number_le := by simp
  number_ne := by simp
  numbers_differ := .nil
  targets_normal := by simp

theorem sublist (h : Orderly s ahead) {kept : List Fetch} (hkept : kept.Sublist ahead) :
    Orderly s kept :=
  { h with
    number_le := fun f hf => h.number_le f (hkept.subset hf)
    number_ne := fun f hf => h.number_ne f (hkept.subset hf)
    numbers_differ := h.numbers_differ.sublist hkept
    targets_normal := fun f hf => h.targets_normal f (hkept.subset hf) }

theorem issue (h : Orderly s ahead) (hnumber : f.number = s.issued + 1)
    (htarget : Path.normalize f.target = f.target) :
    Orderly { s with issued := s.issued + 1, status := .loading } (ahead ++ [f]) where
  committed_le := h.committed_le
  settled_le := Nat.le_succ_of_le h.settled_le
  status_eq := by
    have hsettled : s.settled < s.issued + 1 := Nat.lt_succ_of_le h.settled_le
    simp [Status.ofCounters, hsettled]
  directory_normal := h.directory_normal
  number_le := by
    intro g hg
    rcases List.mem_append.mp hg with hold | hnew
    · exact Nat.le_succ_of_le (h.number_le g hold)
    · obtain rfl := List.mem_singleton.mp hnew
      exact Nat.le_of_eq hnumber
  number_ne := by
    intro g hg
    rcases List.mem_append.mp hg with hold | hnew
    · exact h.number_ne g hold
    · obtain rfl := List.mem_singleton.mp hnew
      have := h.settled_le
      dsimp only
      omega
  numbers_differ := by
    rw [List.pairwise_append]
    refine ⟨h.numbers_differ, List.pairwise_singleton _ _, ?_⟩
    intro g hold g' hnew
    obtain rfl := List.mem_singleton.mp hnew
    have := h.number_le g hold
    omega
  targets_normal := by
    intro g hg
    rcases List.mem_append.mp hg with hold | hnew
    · exact h.targets_normal g hold
    · obtain rfl := List.mem_singleton.mp hnew
      exact htarget

theorem settled_lt (h : Orderly s ahead) (hf : f ∈ ahead) (hle : s.settled ≤ f.number) :
    s.settled < f.number :=
  Nat.lt_of_le_of_ne hle (h.number_ne f hf).symm

theorem status_of_lt (h : Orderly s ahead) (hlt : s.settled < s.issued) : s.status = .loading := by
  rw [h.status_eq]
  unfold Status.ofCounters
  rw [if_neg (by omega), if_pos hlt]

theorem settle (h : Orderly s ahead) (hf : f ∈ ahead) {t : Standing}
    (hcommitted : t.committed ≤ f.number) (hsettled : t.settled = f.number)
    (hissued : t.issued = s.issued)
    (hstatus : t.status = Status.ofCounters s.issued t.committed f.number)
    (hdirectory : Path.normalize t.directory = t.directory) :
    Orderly t (ahead.filter (·.number != f.number)) where
  committed_le := hsettled ▸ hcommitted
  settled_le := by
    rw [hsettled, hissued]
    exact h.number_le f hf
  status_eq := by rw [hstatus, hissued, hsettled]
  directory_normal := hdirectory
  number_le := fun g hg => hissued ▸ h.number_le g (List.mem_of_mem_filter hg)
  number_ne := by
    intro g hg
    rw [hsettled]
    simpa using (List.mem_filter.mp hg).2
  numbers_differ := h.numbers_differ.sublist List.filter_sublist
  targets_normal := fun g hg => h.targets_normal g (List.mem_of_mem_filter hg)

theorem status_settle (h : Orderly s ahead) (hf : f ∈ ahead) (hlt : s.settled < f.number)
    (committed : Nat) :
    (if f.number = s.issued then
        if committed = f.number then Status.loaded else .failed
      else s.status) =
      Status.ofCounters s.issued committed f.number := by
  have hle := h.number_le f hf
  have hissued : s.issued ≠ 0 := by omega
  by_cases hnewest : f.number = s.issued
  · simp [Status.ofCounters, hnewest, hissued]
  · have holder : f.number < s.issued := Nat.lt_of_le_of_ne hle hnewest
    have hloading : s.settled < s.issued := Nat.lt_trans hlt holder
    simp [h.status_eq, Status.ofCounters, hnewest, hissued, holder, hloading]

end Orderly

namespace Journey

def IsOrderly (j : Journey) : Prop := Orderly j.place.standing j.ahead

theorem isOrderly_opening (fragment : String) : (opening fragment).IsOrderly := Orderly.opening

theorem isOrderly_follow {j : Journey} {m : Navigation × Move} (h : j.IsOrderly)
    (hm : j.place.Leads m) : (j.follow m).IsOrderly := by
  unfold IsOrderly at h ⊢
  cases hm with
  | @stay n _ hstanding =>
      change Orderly n.standing j.ahead
      rwa [hstanding]
  | @fetch n f hnumber htarget hstanding =>
      change Orderly n.standing (j.ahead ++ [f])
      rw [hstanding]
      exact h.issue hnumber htarget

theorem isOrderly_heed {j : Journey} {f : Fetch} (h : j.IsOrderly) (hf : f ∈ j.ahead)
    (hle : j.place.settled ≤ f.number) (v : Verdict) :
    (⟨j.place.heed f v, j.without f.number⟩ : Journey).IsOrderly := by
  unfold IsOrderly at h ⊢
  have hlt : j.place.settled < f.number := h.settled_lt hf hle
  cases v with
  | shows l =>
      change Orderly (j.place.commit f l).1.standing (j.without f.number)
      rw [Navigation.standing_commit]
      have hstatus := h.status_settle hf hlt f.number
      simp only [↓reduceIte] at hstatus
      exact h.settle hf (Nat.le_refl _) rfl rfl hstatus (h.targets_normal f hf)
  | complains message =>
      change Orderly (j.place.fail f message).standing (j.without f.number)
      rw [Navigation.standing_fail]
      have hcommitted : j.place.committed < f.number := Nat.lt_of_le_of_lt h.committed_le hlt
      have hstatus := h.status_settle hf hlt j.place.committed
      simp only [Nat.ne_of_lt hcommitted, ↓reduceIte] at hstatus
      exact h.settle hf (Nat.le_of_lt hcommitted) rfl rfl hstatus h.directory_normal
  -- The settled counter stays below this listing, so the status goes on as loading.
  | breaks why => exact h.sublist List.filter_sublist

theorem isOrderly_answer {j : Journey} (h : j.IsOrderly) (number : Nat) (o : Outcome) :
    (j.answer number o).IsOrderly := by
  unfold answer
  cases hfetch : j.fetch? number with
  | none => exact h
  | some f =>
      obtain ⟨hf, rfl⟩ := mem_of_fetch? hfetch
      dsimp only
      rw [Navigation.settle_fst]
      split
      · exact h.sublist List.filter_sublist
      · next hle => exact isOrderly_heed h hf (Nat.le_of_not_lt hle) _

theorem isOrderly_step {j : Journey} (h : j.IsOrderly) (e : Event) : (j.step e).IsOrderly := by
  cases e with
  | start => exact isOrderly_follow h j.place.leads_start
  | refresh => exact isOrderly_follow h j.place.leads_refresh
  | navigate path force => exact isOrderly_follow h (j.place.leads_navigate path force)
  | hashChanged fragment => exact isOrderly_follow h (j.place.leads_hashChanged fragment)
  | select path name => exact h
  | answer number o => exact isOrderly_answer h number o
  | lose number => exact h.sublist List.filter_sublist
  | setFragment fragment => exact h
  | setScreen screen => exact h

theorem isOrderly_run {j : Journey} (h : j.IsOrderly) (events : List Event) :
    (j.run events).IsOrderly := by
  induction events generalizing j with
  | nil => exact h
  | cons e events ih => exact ih (isOrderly_step h e)

/-- Whatever happens, and in whatever order the answers come, the counters stay in order and the
status says how they stand. -/
theorem status_of_counters (fragment : String) (events : List Event) :
    let n := ((opening fragment).run events).place
    (n.committed ≤ n.settled ∧ n.settled ≤ n.issued) ∧
      (n.status = .idle ↔ n.issued = 0) ∧
      (n.status = .loading ↔ n.settled < n.issued) ∧
      (n.status = .loaded ↔
        0 < n.committed ∧ n.committed = n.settled ∧ n.settled = n.issued) ∧
      (n.status = .failed ↔ n.committed < n.settled ∧ n.settled = n.issued) ∧
      Path.normalize n.directory = n.directory := by
  intro n
  have h : Orderly n.standing _ := isOrderly_run (isOrderly_opening fragment) events
  have hcommitted : n.committed ≤ n.settled := h.committed_le
  have hsettled : n.settled ≤ n.issued := h.settled_le
  have hstatus : n.status = Status.ofCounters n.issued n.committed n.settled := h.status_eq
  rw [hstatus]
  exact ⟨⟨hcommitted, hsettled⟩, Status.ofCounters_idle_iff,
    Status.ofCounters_loading_iff, Status.ofCounters_loaded_iff hsettled,
    Status.ofCounters_failed_iff hcommitted hsettled, h.directory_normal⟩

end Journey

end HdfsBrowser
