import HdfsBrowser.Proofs.Session.Journey
import Mathlib.Data.List.Nodup

/-!
# Overtaking

The answers to several listings may come in any order.  What a user sees in
the end, the status and the message, does not depend on it: an answer counts
only until a newer one has settled, and two answers to different listings may
change places.  When the newest listing is answered, its answer alone decides.
-/

namespace HdfsBrowser

/-! ## What an answer tells -/

namespace Verdict

def news? : Verdict → Option (Status × Value)
  | .shows _ => some (.loaded, .null)
  | .complains message => some (.failed, message)
  | .breaks _ => none

end Verdict

namespace Screen

@[simp] theorem showPage_message (s : Screen) (page : Page) :
    (s.showPage page).1.message = s.message := by
  unfold showPage
  cases page.text <;> rfl

@[simp] theorem showPage_shown (s : Screen) (page : Page) :
    (s.showPage page).1.shown = some page := by
  unfold showPage
  cases page.text <;> rfl

end Screen

/-- The part of navigation that the order of answers leaves alone. -/
structure Gist where
  issued : Nat
  settled : Nat
  status : Status
  message : Value
  deriving DecidableEq, Repr

namespace Gist

/-- Takes the news of a listing, unless a newer one has settled. -/
def hear (g : Gist) (f : Fetch) (news : Option (Status × Value)) : Gist :=
  if f.number < g.settled then g
  else
    match news with
    | some (status, message) =>
      ⟨g.issued, f.number, if f.number = g.issued then status else g.status, message⟩
    | none => g

@[simp] theorem hear_none (g : Gist) (f : Fetch) : g.hear f none = g := by
  simp [hear]

@[simp] theorem hear_issued (g : Gist) (f : Fetch) (news : Option (Status × Value)) :
    (g.hear f news).issued = g.issued := by
  unfold hear
  split
  · rfl
  · cases news <;> rfl

theorem hear_of_lt {g : Gist} {f : Fetch} (h : f.number < g.settled)
    (news : Option (Status × Value)) : g.hear f news = g := by
  simp [hear, h]

theorem hear_hear_of_lt {g : Gist} {f f' : Fetch} (hlt : f.number < f'.number)
    (hissued : f'.number ≤ g.issued) (news : Option (Status × Value)) (news' : Status × Value) :
    (g.hear f news).hear f' (some news') = g.hear f' (some news') := by
  by_cases hstale : f.number < g.settled
  · rw [hear_of_lt hstale]
  · cases news with
    | none => rw [hear_none]
    | some news =>
        have hstale' : ¬ f'.number < g.settled := by omega
        have holder : f.number ≠ g.issued := by omega
        have hlate : ¬ f'.number < f.number := by omega
        simp [hear, hstale, hstale', holder, hlate]

theorem hear_comm_of_lt {g : Gist} {f f' : Fetch} (hlt : f.number < f'.number)
    (hissued : f'.number ≤ g.issued) (news news' : Option (Status × Value)) :
    (g.hear f news).hear f' news' = (g.hear f' news').hear f news := by
  cases news' with
  | none => rw [hear_none, hear_none]
  | some news' =>
      rw [hear_hear_of_lt hlt hissued]
      by_cases hstale : f'.number < g.settled
      · rw [hear_of_lt hstale, hear_of_lt (Nat.lt_trans hlt hstale)]
      · have hlate : f.number < (g.hear f' (some news')).settled := by
          simpa [hear, hstale] using hlt
        rw [hear_of_lt hlate]

theorem hear_comm {g : Gist} {f f' : Fetch} (hne : f.number ≠ f'.number)
    (hf : f.number ≤ g.issued) (hf' : f'.number ≤ g.issued)
    (news news' : Option (Status × Value)) :
    (g.hear f news).hear f' news' = (g.hear f' news').hear f news := by
  rcases Nat.lt_or_gt_of_ne hne with hlt | hgt
  · exact hear_comm_of_lt hlt hf' news news'
  · exact (hear_comm_of_lt hgt hf news' news).symm

end Gist

namespace Navigation

def gist (n : Navigation) : Gist := ⟨n.issued, n.settled, n.status, n.screen.message⟩

@[simp] theorem gist_publish (n : Navigation) (directory : String) :
    (n.publish directory).gist = n.gist := by
  unfold publish
  split <;> rfl

theorem gist_commit (n : Navigation) (f : Fetch) (l : Listing) :
    (n.commit f l).1.gist =
      ⟨n.issued, f.number, if f.number = n.issued then .loaded else n.status, .null⟩ := by
  have hgist : (n.commit f l).1.gist = (n.enter f).gist := by simp [commit, gist]
  rw [hgist]
  unfold enter
  rw [gist_publish]
  rfl

theorem gist_settle (n : Navigation) (f : Fetch) (o : Outcome) :
    (n.settle f o).1.gist = n.gist.hear f (f.verdict o).news? := by
  rw [settle_fst]
  by_cases hstale : f.number < n.settled
  · rw [if_pos hstale, Gist.hear_of_lt hstale]
  · rw [if_neg hstale]
    have hstale' : ¬ f.number < n.gist.settled := hstale
    cases f.verdict o with
    | shows l =>
        change (n.commit f l).1.gist = _
        rw [gist_commit]
        simp [Gist.hear, Verdict.news?, hstale']
        exact ⟨rfl, rfl⟩
    | complains message =>
        simp [Gist.hear, Verdict.news?, hstale']
        rfl
    | breaks why => simp [Verdict.news?, heed]

theorem heed_settled (n : Navigation) (f : Fetch) {v : Verdict} (hnews : v.news? ≠ none) :
    (n.heed f v).settled = f.number := by
  cases v with
  | shows l => exact congrArg Gist.settled (n.gist_commit f l)
  | complains message => rfl
  | breaks why => exact absurd rfl hnews

end Navigation

/-! ## Deliveries -/

namespace Journey

variable {j k : Journey} {answers : Nat → Outcome}

theorem answer_of_fetch? {number : Nat} {f : Fetch} (h : j.fetch? number = some f) (o : Outcome) :
    j.answer number o = ⟨(j.place.settle f o).1, j.without number⟩ := by
  simp only [answer, h]

theorem answer_of_none {number : Nat} (h : j.fetch? number = none) (o : Outcome) :
    j.answer number o = j := by
  simp only [answer, h]

theorem fetch?_answer {number other : Nat} (hne : number ≠ other) (o : Outcome) :
    (j.answer number o).fetch? other = j.fetch? other := by
  cases hfetch : j.fetch? number with
  | none => rw [answer_of_none hfetch]
  | some f =>
      rw [answer_of_fetch? hfetch]
      simp only [fetch?, without, List.find?_filter]
      congr 1
      funext g
      by_cases hg : g.number = other
      · simp [hg, hne.symm]
      · simp [hg]

def Agree (j k : Journey) : Prop := j.place.gist = k.place.gist ∧ j.ahead = k.ahead

theorem Agree.answer (h : Agree j k) (number : Nat) (o : Outcome) :
    Agree (j.answer number o) (k.answer number o) := by
  obtain ⟨hgist, hahead⟩ := h
  have hfetch : j.fetch? number = k.fetch? number := by simp only [fetch?, hahead]
  cases hk : k.fetch? number with
  | none =>
      rw [answer_of_none hk, answer_of_none (hfetch.trans hk)]
      exact ⟨hgist, hahead⟩
  | some f =>
      rw [answer_of_fetch? hk, answer_of_fetch? (hfetch.trans hk)]
      refine ⟨?_, by simp only [without, hahead]⟩
      simp only [Navigation.gist_settle, hgist]

theorem answer_comm (h : j.IsOrderly) {number number' : Nat} (hne : number ≠ number')
    (o o' : Outcome) :
    Agree ((j.answer number o).answer number' o') ((j.answer number' o').answer number o) := by
  have hfetch' : (j.answer number o).fetch? number' = j.fetch? number' := fetch?_answer hne o
  have hfetch : (j.answer number' o').fetch? number = j.fetch? number := fetch?_answer hne.symm o'
  cases hf : j.fetch? number with
  | none =>
      rw [answer_of_none hf, answer_of_none (hfetch.trans hf)]
      exact ⟨rfl, rfl⟩
  | some f =>
      cases hf' : j.fetch? number' with
      | none =>
          rw [answer_of_none hf', answer_of_none (hfetch'.trans hf')]
          exact ⟨rfl, rfl⟩
      | some f' =>
          obtain ⟨hmem, rfl⟩ := mem_of_fetch? hf
          obtain ⟨hmem', rfl⟩ := mem_of_fetch? hf'
          rw [answer_of_fetch? (hfetch'.trans hf'), answer_of_fetch? (hfetch.trans hf),
            answer_of_fetch? hf, answer_of_fetch? hf']
          constructor
          · simp only [Navigation.gist_settle]
            exact Gist.hear_comm hne (h.number_le f hmem) (h.number_le f' hmem') _ _
          · simp only [without, List.filter_filter, Bool.and_comm]

def deliver (j : Journey) (answers : Nat → Outcome) (order : List Nat) : Journey :=
  j.run (order.map fun number => .answer number (answers number))

@[simp] theorem deliver_cons (number : Nat) (order : List Nat) :
    j.deliver answers (number :: order) =
      (j.answer number (answers number)).deliver answers order := rfl

theorem deliver_append (first second : List Nat) :
    j.deliver answers (first ++ second) = (j.deliver answers first).deliver answers second := by
  simp only [deliver, run, List.map_append, List.foldl_append]

theorem isOrderly_deliver (h : j.IsOrderly) (order : List Nat) :
    (j.deliver answers order).IsOrderly :=
  isOrderly_run h _

theorem Agree.deliver (h : Agree j k) (order : List Nat) :
    Agree (j.deliver answers order) (k.deliver answers order) := by
  induction order generalizing j k with
  | nil => exact h
  | cons number order ih => exact ih (h.answer number _)

/-- The order of the answers makes no difference to what is seen. -/
theorem agree_of_perm (h : j.IsOrderly) {order order' : List Nat} (hperm : order.Perm order') :
    Agree (j.deliver answers order) (j.deliver answers order') := by
  induction hperm generalizing j with
  | nil => exact ⟨rfl, rfl⟩
  | cons number _ ih => exact ih (isOrderly_answer h number _)
  | swap number number' order =>
      simp only [deliver_cons]
      -- A second answer to the same listing finds nothing, so only different ones have to commute.
      by_cases hsame : number' = number
      · rw [hsame]
        exact ⟨rfl, rfl⟩
      · exact (answer_comm h hsame _ _).deliver order
  | trans _ _ ih ih' => exact ⟨(ih h).1.trans (ih' h).1, (ih h).2.trans (ih' h).2⟩

/-! ## The newest listing -/

theorem fetch?_of_mem (h : j.IsOrderly) {f : Fetch} (hf : f ∈ j.ahead) :
    j.fetch? f.number = some f := by
  cases hfetch : j.fetch? f.number with
  | none =>
      have := List.find?_eq_none.mp hfetch f hf
      simp at this
  | some g =>
      obtain ⟨hg, hnumber⟩ := mem_of_fetch? hfetch
      have hnumbers : (j.ahead.map (·.number)).Nodup := List.pairwise_map.mpr h.numbers_differ
      rw [List.inj_on_of_nodup_map hnumbers hg hf hnumber]

@[simp] theorem answer_issued (number : Nat) (o : Outcome) :
    (j.answer number o).place.issued = j.place.issued := by
  cases hfetch : j.fetch? number with
  | none => rw [answer_of_none hfetch]
  | some f =>
      rw [answer_of_fetch? hfetch]
      change (j.place.settle f o).1.gist.issued = _
      rw [Navigation.gist_settle, Gist.hear_issued]
      rfl

@[simp] theorem deliver_issued (order : List Nat) :
    (j.deliver answers order).place.issued = j.place.issued := by
  induction order generalizing j with
  | nil => rfl
  | cons number order ih => rw [deliver_cons, ih, answer_issued]

theorem ahead_answer_subset (number : Nat) (o : Outcome) :
    (j.answer number o).ahead ⊆ j.ahead := by
  cases hfetch : j.fetch? number with
  | none => simp [answer_of_none hfetch]
  | some f =>
      rw [answer_of_fetch? hfetch]
      exact List.filter_subset_self j.ahead

theorem mem_ahead_answer {f : Fetch} (hf : f ∈ j.ahead) {number : Nat} (hne : f.number ≠ number)
    (o : Outcome) : f ∈ (j.answer number o).ahead := by
  cases hfetch : j.fetch? number with
  | none => rwa [answer_of_none hfetch]
  | some g =>
      rw [answer_of_fetch? hfetch]
      exact List.mem_filter.mpr ⟨hf, by simpa using hne⟩

theorem mem_ahead_deliver {f : Fetch} (hf : f ∈ j.ahead) {order : List Nat}
    (hmem : f.number ∉ order) : f ∈ (j.deliver answers order).ahead := by
  induction order generalizing j with
  | nil => exact hf
  | cons number order ih =>
      obtain ⟨hne, hrest⟩ := not_or.mp (mt List.mem_cons.mpr hmem)
      exact ih (mem_ahead_answer hf hne _) hrest

theorem deliver_place_of_late (hlate : ∀ f ∈ j.ahead, f.number < j.place.settled)
    (order : List Nat) : (j.deliver answers order).place = j.place := by
  induction order generalizing j with
  | nil => rfl
  | cons number order ih =>
      have hplace : (j.answer number (answers number)).place = j.place := by
        cases hfetch : j.fetch? number with
        | none => rw [answer_of_none hfetch]
        | some f =>
            rw [answer_of_fetch? hfetch]
            exact (Navigation.settle_fst _ f _).trans (if_pos (hlate f (mem_of_fetch? hfetch).1))
      rw [deliver_cons, ih, hplace]
      intro f hf
      rw [hplace]
      exact hlate f (ahead_answer_subset number _ hf)

theorem deliver_settled_lt (hsettled : j.place.settled < j.place.issued)
    (hahead : ∀ f ∈ j.ahead, f.number < j.place.issued) (order : List Nat) :
    (j.deliver answers order).place.settled < j.place.issued := by
  induction order generalizing j with
  | nil => exact hsettled
  | cons number order ih =>
      -- The listing itself may be gone: what is kept is that all others have smaller numbers.
      have hanswer : (j.answer number (answers number)).place.settled < j.place.issued := by
        cases hfetch : j.fetch? number with
        | none => rwa [answer_of_none hfetch]
        | some f =>
            rw [answer_of_fetch? hfetch]
            change (j.place.settle f _).1.gist.settled < _
            rw [Navigation.gist_settle]
            unfold Gist.hear
            split
            · exact hsettled
            · split
              · exact hahead f (mem_of_fetch? hfetch).1
              · exact hsettled
      rw [deliver_cons, ← answer_issued (j := j) number (answers number)]
      apply ih
      · rwa [answer_issued]
      · intro f hf
        rw [answer_issued]
        exact hahead f (ahead_answer_subset number _ hf)

theorem deliver_eq_of_mem (h : j.IsOrderly) {f : Fetch} (hf : f ∈ j.ahead)
    (hnewest : f.number = j.place.issued) {order : List Nat} (hmem : f.number ∈ order) :
    ∃ (i : Journey) (after : List Nat), i.IsOrderly ∧ f ∈ i.ahead ∧ f.number = i.place.issued ∧
      j.deliver answers order = (i.answer f.number (answers f.number)).deliver answers after := by
  obtain ⟨before, after, rfl, hbefore⟩ := List.eq_append_cons_of_mem hmem
  refine ⟨j.deliver answers before, after, isOrderly_deliver h before,
    mem_ahead_deliver hf hbefore, ?_, ?_⟩
  · rw [deliver_issued, hnewest]
  · rw [deliver_append, deliver_cons]

theorem answer_newest_place (h : j.IsOrderly) {f : Fetch} (hf : f ∈ j.ahead)
    (hnewest : f.number = j.place.issued) (o : Outcome) :
    (j.answer f.number o).place = j.place.heed f (f.verdict o) := by
  have hsettled : j.place.settled ≤ j.place.issued := h.settled_le
  have hfresh : ¬ f.number < j.place.settled := by omega
  rw [answer_of_fetch? (fetch?_of_mem h hf)]
  exact (Navigation.settle_fst _ f o).trans (if_neg hfresh)

theorem answer_newest_ahead (h : j.IsOrderly) {f : Fetch} (hf : f ∈ j.ahead)
    (hnewest : f.number = j.place.issued) (o : Outcome) :
    ∀ g ∈ (j.answer f.number o).ahead, g.number < f.number := by
  rw [answer_of_fetch? (fetch?_of_mem h hf)]
  intro g hg
  obtain ⟨hmem, hne⟩ := List.mem_filter.mp hg
  have hle : g.number ≤ j.place.issued := h.number_le g hmem
  have hne' : g.number ≠ f.number := by simpa using hne
  omega

theorem deliver_newest (h : j.IsOrderly) {f : Fetch} (hf : f ∈ j.ahead)
    (hnewest : f.number = j.place.issued) {order : List Nat} (hmem : f.number ∈ order)
    (hnews : (f.verdict (answers f.number)).news? ≠ none) :
    ∃ n : Navigation, f.number = n.issued ∧
      (j.deliver answers order).place = n.heed f (f.verdict (answers f.number)) := by
  obtain ⟨i, after, hi, hfi, hissued, hdeliver⟩ := deliver_eq_of_mem h hf hnewest hmem
  have hplace := answer_newest_place hi hfi hissued (answers f.number)
  have hsettled : (i.answer f.number (answers f.number)).place.settled = f.number := by
    rw [hplace]
    exact Navigation.heed_settled _ f hnews
  refine ⟨i.place, hissued, ?_⟩
  rw [hdeliver, deliver_place_of_late, hplace]
  rw [hsettled]
  exact answer_newest_ahead hi hfi hissued _

theorem deliver_newest_breaks (h : j.IsOrderly) {f : Fetch} (hf : f ∈ j.ahead)
    (hnewest : f.number = j.place.issued) {order : List Nat} (hmem : f.number ∈ order)
    {why : Fault} (hbreaks : f.verdict (answers f.number) = .breaks why) :
    (j.deliver answers order).place.status = .loading := by
  obtain ⟨i, after, hi, hfi, hissued, hdeliver⟩ := deliver_eq_of_mem h hf hnewest hmem
  have hplace : (i.answer f.number (answers f.number)).place = i.place := by
    rw [answer_newest_place hi hfi hissued, hbreaks]
    rfl
  have hopen : i.place.settled < i.place.issued := by
    have hle : i.place.settled ≤ i.place.issued := hi.settled_le
    have hne : f.number ≠ i.place.settled := hi.number_ne f hfi
    omega
  have hahead : ∀ g ∈ (i.answer f.number (answers f.number)).ahead,
      g.number < (i.answer f.number (answers f.number)).place.issued := by
    rw [answer_issued, ← hissued]
    exact answer_newest_ahead hi hfi hissued _
  have hend : (j.deliver answers order).place.settled < (j.deliver answers order).place.issued := by
    rw [hdeliver, deliver_issued]
    exact deliver_settled_lt (hplace.symm ▸ hopen) hahead after
  exact (isOrderly_deliver h order).status_of_lt hend

end Journey

/-! ## The outcome -/

namespace Navigation

structure Shows (n : Navigation) (f : Fetch) (l : Listing) : Prop where
  status : n.status = .loaded
  message : n.screen.message = .null
  directory : n.directory = f.target
  fragment : n.fragment = f.target
  selectedPath : n.selectedPath = none
  selectedName : n.selectedName = none
  shown : n.screen.shown = some (.listing l)

/-- How navigation ends when the newest listing has its verdict. -/
def EndsWith (n : Navigation) (f : Fetch) : Verdict → Prop
  | .shows l => n.Shows f l
  | .complains message => n.status = .failed ∧ n.screen.message = message
  | .breaks _ => n.status = .loading

theorem publish_fragment (n : Navigation) (directory : String) :
    (n.publish directory).fragment = directory := by
  unfold publish
  split
  · assumption
  · rfl

theorem shows_commit {n : Navigation} {f : Fetch} (hnewest : f.number = n.issued) (l : Listing) :
    (n.commit f l).1.Shows f l where
  status := by
    have := congrArg Gist.status (n.gist_commit f l)
    simpa [gist, hnewest] using this
  message := congrArg Gist.message (n.gist_commit f l)
  directory := congrArg Standing.directory (n.standing_commit f l)
  fragment := publish_fragment _ f.target
  selectedPath := by
    simp only [commit, enter, publish]
    split <;> rfl
  selectedName := by
    simp only [commit, enter, publish]
    split <;> rfl
  shown := Screen.showPage_shown _ (.listing l)

end Navigation

namespace Journey

theorem deliver_endsWith {j : Journey} (h : j.IsOrderly) (answers : Nat → Outcome) {f : Fetch}
    (hf : f ∈ j.ahead) (hnewest : f.number = j.place.issued) {order : List Nat}
    (hmem : f.number ∈ order) :
    (j.deliver answers order).place.EndsWith f (f.verdict (answers f.number)) := by
  cases hverdict : f.verdict (answers f.number) with
  | shows l =>
      have hnews : (f.verdict (answers f.number)).news? ≠ none := by simp [hverdict, Verdict.news?]
      obtain ⟨n, hissued, hplace⟩ := deliver_newest h hf hnewest hmem hnews
      rw [hplace, hverdict]
      exact Navigation.shows_commit hissued l
  | complains message =>
      have hnews : (f.verdict (answers f.number)).news? ≠ none := by simp [hverdict, Verdict.news?]
      obtain ⟨n, hissued, hplace⟩ := deliver_newest h hf hnewest hmem hnews
      rw [hplace, hverdict]
      exact ⟨if_pos hissued, rfl⟩
  | breaks why => exact deliver_newest_breaks h hf hnewest hmem hverdict

/-- The newest listing wins: in whatever order the answers to the listings on their way are
delivered, status and message are the same in the end, and when the newest one is among them its
verdict decides alone how navigation ends. -/
theorem newest_listing_wins (fragment : String) (events : List Event) (answers : Nat → Outcome)
    {order order' : List Nat} (hperm : order.Perm order') :
    let j := (opening fragment).run events
    let n := (j.deliver answers order).place
    let n' := (j.deliver answers order').place
    (n.status = n'.status ∧ n.screen.message = n'.screen.message) ∧
      ∀ f ∈ j.ahead, f.number = j.place.issued → f.number ∈ order →
        Path.normalize f.target = f.target ∧
          n.EndsWith f (f.verdict (answers f.number)) ∧
          n'.EndsWith f (f.verdict (answers f.number)) := by
  intro j n n'
  have hj : j.IsOrderly := isOrderly_run (isOrderly_opening fragment) events
  have hgist : n.gist = n'.gist := (agree_of_perm hj hperm).1
  refine ⟨⟨congrArg Gist.status hgist, congrArg Gist.message hgist⟩, ?_⟩
  intro f hf hnewest hmem
  exact ⟨hj.targets_normal f hf, deliver_endsWith hj answers hf hnewest hmem,
    deliver_endsWith hj answers hf hnewest (hperm.subset hmem)⟩

theorem newest_listing_wins_of_two :
    let j := (opening "").run [.navigate "/a" false, .navigate "/b/" false]
    let answers (number : Nat) : Outcome :=
      if number = 1 then .ok (.object []) else .error (.transport "down" none)
    let n := (j.deliver answers [1, 2]).place
    let n' := (j.deliver answers [2, 1]).place
    [1, 2].Perm [2, 1] ∧ ⟨2, "/b"⟩ ∈ j.ahead ∧ 2 = j.place.issued ∧
      n.status = n'.status ∧ n.EndsWith ⟨2, "/b"⟩ (.complains (.str "down")) ∧
      n'.EndsWith ⟨2, "/b"⟩ (.complains (.str "down")) := by
  intro j answers n n'
  have hperm : [1, 2].Perm [2, 1] := List.Perm.swap 2 1 []
  have hahead : (⟨2, "/b"⟩ : Fetch) ∈ j.ahead := by decide
  have hissued : 2 = j.place.issued := by decide
  obtain ⟨⟨hstatus, -⟩, hnewest⟩ := newest_listing_wins ""
    [.navigate "/a" false, .navigate "/b/" false] answers hperm
  obtain ⟨-, hn, hn'⟩ := hnewest ⟨2, "/b"⟩ hahead hissued (by decide)
  exact ⟨hperm, hahead, hissued, hstatus, hn, hn'⟩

/-- A length beyond all numbers is a fault that navigation does not take care of: the newest
listing is answered, and navigation goes on loading without a message. -/
theorem infinite_length_goes_on_loading :
    let payload : Value := .object [("FileStatus",
      .list [.object [("pathSuffix", .str "f"), ("length", .float (.infinite false))]])]
    let n := (((opening "").run [.navigate "/a" false]).deliver (fun _ => .ok payload) [1]).place
    (Listing.ofPayload "/a" payload).isOk = false ∧ n.status ≠ .failed ∧ n.status = .loading ∧
      n.screen.message = .null := by
  decide

end Journey

end HdfsBrowser
