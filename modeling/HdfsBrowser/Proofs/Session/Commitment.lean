import HdfsBrowser.Proofs.Listing.Projection
import HdfsBrowser.Proofs.Page.Listing
import HdfsBrowser.Proofs.Session.Standstill

/-!
# Whether a listing commits as a whole

A payload that is malformed fails and leaves navigation where it was; one that
can be read and shown commits.  In between are two kinds that do neither: a
payload that stops at a number without bound is lost without a word, and a
listing that can be read but not shown is entered all the same.
-/

namespace HdfsBrowser.Navigation

variable {n : Navigation} {f : Fetch} {payload : Value}

/-! ## What an answer does -/

structure Enters (n n' : Navigation) (f : Fetch) : Prop where
  directory : n'.directory = f.target
  fragment : n'.fragment = f.target
  selection : n'.selection = (none, none)
  status : n'.status = if f.number = n.issued then .loaded else n.status

structure Remains (n n' : Navigation) (f : Fetch) : Prop where
  directory : n'.directory = n.directory
  fragment : n'.fragment = n.fragment
  selection : n'.selection = n.selection
  status : n'.status = if f.number = n.issued then .failed else n.status

/-- A listing has committed and is written, or it has failed and its message is. -/
inductive SettlesWhole (n : Navigation) (f : Fetch) (payload : Value) :
    Navigation × Except Fault Bool → Prop
  | commits {n' : Navigation} {l : Listing} {text : String}
      (hlisting : Listing.ofPayload f.target payload = .ok l)
      (htext : (Page.listing l).text = .ok text) (henters : n.Enters n' f)
      (hscreen : n'.screen = ⟨.null, some (.listing l), n.screen.written ++ [.page text]⟩) :
      SettlesWhole n f payload (n', .ok true)
  | fails {n' : Navigation} {why : Fault} {message : Value}
      (hlisting : Listing.ofPayload f.target payload = .error why)
      (hmessage : message = .str (unreadable f.target why)) (hremains : n.Remains n' f)
      (hscreen : n'.screen = ⟨message, n.screen.shown, n.screen.written ++ [.error message]⟩) :
      SettlesWhole n f payload (n', .ok false)

theorem SettlesWhole.returns {m : Navigation × Except Fault Bool}
    (h : n.SettlesWhole f payload m) : ∃ committed, m.2 = .ok committed := by
  cases h with
  | commits => exact ⟨true, rfl⟩
  | fails => exact ⟨false, rfl⟩

theorem enters_commit (n : Navigation) (f : Fetch) (l : Listing) :
    n.Enters (n.commit f l).1 f where
  directory := congrArg Standing.directory (n.standing_commit f l)
  fragment := publish_fragment _ f.target
  selection := selection_publish _ f.target
  status := congrArg Standing.status (n.standing_commit f l)

theorem screen_publish (n : Navigation) (directory : String) :
    (n.publish directory).screen = n.screen := by
  unfold publish
  split <;> rfl

theorem screen_enter (n : Navigation) (f : Fetch) : (n.enter f).screen = n.screen.clearError :=
  screen_publish _ f.target

theorem screen_commit_of_text (n : Navigation) (f : Fetch) {l : Listing} {text : String}
    (h : (Page.listing l).text = .ok text) :
    (n.commit f l).1.screen = ⟨.null, some (.listing l), n.screen.written ++ [.page text]⟩ ∧
      (n.commit f l).2 = .ok true := by
  simp only [commit, Screen.showPage, screen_enter, h]
  exact ⟨rfl, rfl⟩

theorem screen_commit_of_fault (n : Navigation) (f : Fetch) {l : Listing} {why : Fault}
    (h : (Page.listing l).text = .error why) :
    (n.commit f l).1.screen = ⟨.null, some (.listing l), n.screen.written⟩ ∧
      (n.commit f l).2 = .error why := by
  simp only [commit, Screen.showPage, screen_enter, h]
  exact ⟨rfl, rfl⟩

theorem remains_fail (n : Navigation) (f : Fetch) (message : Value) :
    n.Remains (n.fail f message) f := ⟨rfl, rfl, rfl, rfl⟩

/-! ## Answers that are not out of date -/

section Fresh

variable (hfresh : n.settled ≤ f.number)
include hfresh

theorem settle_payload :
    n.settle f (.ok payload) =
      match Listing.ofPayload f.target payload with
      | .ok l => n.commit f l
      | .error why =>
        if why.isMalformed then (n.fail f (.str (unreadable f.target why)), .ok false)
        else (n, .error why) := by
  unfold settle
  exact if_neg (Nat.not_lt.mpr hfresh)

theorem settle_of_listing {l : Listing} (h : Listing.ofPayload f.target payload = .ok l) :
    n.settle f (.ok payload) = n.commit f l := by
  rw [settle_payload hfresh, h]

theorem settle_of_malformed {why : Fault} (h : Listing.ofPayload f.target payload = .error why)
    (hmalformed : why.isMalformed = true) :
    n.settle f (.ok payload) = (n.fail f (.str (unreadable f.target why)), .ok false) := by
  rw [settle_payload hfresh, h]
  exact if_pos hmalformed

theorem settle_of_stopsUnbounded (h : Listing.StopsUnbounded payload) :
    n.settle f (.ok payload) = (n, .error .tooLarge) := by
  rw [settle_payload hfresh, Listing.ofPayload_of_stopsUnbounded f.target h]
  rfl

theorem settle_of_unshowable {l : Listing} (h : Listing.ofPayload f.target payload = .ok l)
    (hrow : ∃ r ∈ l.rows, ¬ r.IsShowable) :
    ∃ n' why, n.settle f (.ok payload) = (n', .error why) ∧ n.Enters n' f ∧
      n'.screen = ⟨.null, some (.listing l), n.screen.written⟩ := by
  cases htext : (Page.listing l).text with
  | ok text =>
      obtain ⟨r, hr, hnot⟩ := hrow
      exact absurd ((Page.exists_text_listing_iff l).mp ⟨text, htext⟩ r hr) hnot
  | error why =>
      obtain ⟨hscreen, hresult⟩ := n.screen_commit_of_fault f htext
      refine ⟨(n.commit f l).1, why, ?_, n.enters_commit f l, hscreen⟩
      rw [settle_of_listing hfresh h, ← hresult]

/-- An answer that is not out of date commits completely, or it fails and leaves navigation where
it was, if and only if its payload does not stop at a number without bound and every row of its
listing has a text.  In the first of the two other cases nothing changes and the fault is raised;
in the second navigation moves to the target and the fault is raised with nothing written. -/
theorem settlesWhole_iff :
    (n.SettlesWhole f payload (n.settle f (.ok payload)) ↔
      ¬ Listing.StopsUnbounded payload ∧
        ∀ l, Listing.ofPayload f.target payload = .ok l → ∀ r ∈ l.rows, r.IsShowable) ∧
    (Listing.StopsUnbounded payload → n.settle f (.ok payload) = (n, .error .tooLarge)) ∧
    ∀ l, Listing.ofPayload f.target payload = .ok l → (∃ r ∈ l.rows, ¬ r.IsShowable) →
      ∃ n' why, n.settle f (.ok payload) = (n', .error why) ∧ n.Enters n' f ∧
        n'.screen = ⟨.null, some (.listing l), n.screen.written⟩ := by
  refine ⟨⟨fun h => ⟨fun hstops => ?_, fun l hl r hr => ?_⟩, ?_⟩,
    settle_of_stopsUnbounded hfresh, fun l => settle_of_unshowable hfresh⟩
  · rw [settle_of_stopsUnbounded hfresh hstops] at h
    cases h
  · by_contra hnot
    obtain ⟨n', why, hsettle, -⟩ := settle_of_unshowable hfresh hl ⟨r, hr, hnot⟩
    rw [hsettle] at h
    cases h
  · rintro ⟨hbounded, hshowable⟩
    cases hlisting : Listing.ofPayload f.target payload with
    | ok l =>
        obtain ⟨text, htext⟩ := (Page.exists_text_listing_iff l).mpr (hshowable l hlisting)
        obtain ⟨hscreen, hresult⟩ := n.screen_commit_of_text f htext
        have hcommit : n.commit f l = ((n.commit f l).1, .ok true) := by rw [← hresult]
        rw [settle_of_listing hfresh hlisting, hcommit]
        exact .commits hlisting htext (n.enters_commit f l) hscreen
    | error why =>
        rcases Listing.ofPayload_eq_error hlisting with hmalformed | ⟨-, hstops⟩
        · rw [settle_of_malformed hfresh hlisting hmalformed]
          exact .fails hlisting rfl (n.remains_fail f _) rfl
        · exact absurd hstops hbounded

end Fresh

theorem settlesWhole_of_file :
    let payload : Value := .object [("FileStatus",
      .list [.object [("pathSuffix", .str "f"), ("owner", .str "u"), ("length", .int 5)]])]
    let n := ((opening "").navigate "/a" false).1
    n.settled ≤ 1 ∧ n.SettlesWhole ⟨1, "/a"⟩ payload (n.settle ⟨1, "/a"⟩ (.ok payload)) := by
  intro payload n
  let r : Row := ⟨.str "f", "/a/f", false, "----------", .str "u", .str "", 0, 5, 0, 0⟩
  have hfresh : n.settled ≤ 1 := by decide
  have hlisting : Listing.ofPayload "/a" payload = .ok ⟨"/a", Path.trail "/a", [r]⟩ := by
    decide +kernel
  have hrow : r.IsShowable := {
    name := ⟨"f", rfl⟩
    owner := ⟨"u", rfl⟩
    group := ⟨"", rfl⟩
    replication := fun _ => by decide +kernel
    length := fun _ => by decide +kernel
    modified := by decide }
  refine ⟨hfresh, (settlesWhole_iff (f := ⟨1, "/a"⟩) hfresh).1.mpr ⟨fun hstops => ?_, ?_⟩⟩
  · rw [Listing.ofPayload_of_stopsUnbounded "/a" hstops] at hlisting
    cases hlisting
  · intro l hl r' hr'
    rw [hlisting] at hl
    cases hl
    rwa [List.mem_singleton.mp hr']

/-- A listing with an owner that is no text is entered, and then it cannot be shown. -/
theorem null_owner_commits_by_halves :
    let payload : Value := .object [("FileStatus",
      .list [.object [("pathSuffix", .str "f"), ("owner", .null)]])]
    let n := ((opening "").navigate "/a" false).1
    let m := n.settle ⟨1, "/a"⟩ (.ok payload)
    n.settled ≤ 1 ∧ ¬ n.SettlesWhole ⟨1, "/a"⟩ payload m ∧ m.2 = .error (.noLength .null) ∧
      m.1.directory = "/a" ∧ m.1.screen.message = .null ∧ m.1.screen.written = [] := by
  intro payload n m
  have hresult : m.2 = .error (.noLength .null) := by decide +kernel
  refine ⟨by decide, fun h => ?_, hresult, by decide +kernel, by decide +kernel, by decide +kernel⟩
  obtain ⟨committed, hreturned⟩ := h.returns
  rw [hresult] at hreturned
  cases hreturned

end HdfsBrowser.Navigation
