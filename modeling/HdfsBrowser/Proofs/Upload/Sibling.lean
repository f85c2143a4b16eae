import HdfsBrowser.Proofs.Upload.Books

/-!
# Files that are uploaded together

What a file comes to is a matter of its own replies.  So an upload that waits
for nothing any longer has come to what was planned for its files one by one,
and what is planned for one file makes no difference to the others, unless the
exchange of that file raises a fault: then the upload ends, nobody waits any
longer for the replies to the other files, and nothing is returned.
-/

namespace HdfsBrowser

/-! ## Plans -/

def Script.Follows (past : Script) (plan : Nat → List Reply) : Prop :=
  ∀ i, past.given i <+: plan i

section

variable [Client]

/-- What calls come to when each is given all replies that a plan has ready for it. -/
def planned (settings : Settings) (calls : List Call) (plan : Nat → List Reply) :
    List Resolution :=
  calls.mapIdx fun i c => c.resolution settings (plan i)

variable {settings : Settings} {calls : List Call} {past : Script} {plan : Nat → List Reply}

theorem getElem?_planned (i : Nat) :
    (planned settings calls plan)[i]? = calls[i]?.map fun c => c.resolution settings (plan i) :=
  List.getElem?_mapIdx

theorem getElem?_planned_of_isFinal (h : past.Follows plan) {i : Nat} {x : Resolution}
    (hfate : (fates settings calls past)[i]? = some x) (hfinal : x.IsFinal) :
    (planned settings calls plan)[i]? = some x := by
  rw [getElem?_fates] at hfate
  obtain ⟨c, hc, rfl⟩ := Option.map_eq_some_iff.mp hfate
  obtain ⟨rest, hrest⟩ := h i
  rw [getElem?_planned, hc, Option.map_some, ← hrest, Call.resolution_append_of_isFinal hfinal]

theorem mem_planned_of_raised (h : past.Follows plan) {f : Fault}
    (hmem : .raised f ∈ fates settings calls past) : .raised f ∈ planned settings calls plan := by
  obtain ⟨i, hi⟩ := List.mem_iff_getElem?.mp hmem
  exact List.mem_of_getElem? (getElem?_planned_of_isFinal h hi (Resolution.isFinal_raised f))

theorem planned_of_returned (h : past.Follows plan) {os : List Outcome}
    (hfates : fates settings calls past = os.map .returned) :
    planned settings calls plan = os.map .returned := by
  have hlength : (planned settings calls plan).length = (os.map Resolution.returned).length := by
    rw [← hfates, length_fates]
    exact List.length_mapIdx
  refine List.ext_getElem? fun i => ?_
  cases ho : os[i]? with
  | none =>
      have hle : os.length ≤ i := List.getElem?_eq_none_iff.mp ho
      rw [List.length_map] at hlength
      rw [List.getElem?_eq_none (hlength ▸ hle), List.getElem?_map, ho]
      rfl
  | some o =>
      have hfate : (fates settings calls past)[i]? = some (.returned o) := by
        rw [hfates, List.getElem?_map, ho]
        rfl
      rw [getElem?_planned_of_isFinal h hfate (Resolution.isFinal_returned o),
        List.getElem?_map, ho]
      rfl

namespace Upload

/-! ## One upload -/

/-- How an upload ends whose files come to what was planned for them. -/
inductive EndsAsPlanned (settings : Settings) (calls : List Call) (plan : Nat → List Reply) :
    List Ending → Prop
  | broken {fs : List Fault} (hsome : fs ≠ [])
      (hraised : ∀ f ∈ fs, .raised f ∈ planned settings calls plan) :
      EndsAsPlanned settings calls plan [.aborted (.group fs)]
  | answered {os : List Outcome} (hplanned : planned settings calls plan = os.map .returned) :
      EndsAsPlanned settings calls plan [.answered (.outcomes os)]
  | unrefreshed {os : List Outcome} {why : Fault}
      (hplanned : planned settings calls plan = os.map .returned) :
      EndsAsPlanned settings calls plan [.aborted (.single why)]

theorem ends_as_planned {last : Stage} {k : Nat} {es : List Ending} {x : Session.Share}
    {control : Option String} (hbalances : Balances settings calls last k es)
    (hdescribes : Describes settings calls control last x) (hpending : x.pending = [])
    (hfollows : last.past.Follows plan) : EndsAsPlanned settings calls plan es := by
  obtain ⟨past, rfl⟩ := hbalances.exists_closed hdescribes hpending
  cases hbalances with
  | broken hsome hraised =>
      exact .broken hsome fun f hf => mem_planned_of_raised hfollows (hraised f hf)
  | answered hfates => exact .answered (planned_of_returned hfollows hfates)
  | unrefreshed hfates => exact .unrefreshed (planned_of_returned hfollows hfates)

theorem EndsAsPlanned.broken_or_known {es : List Ending}
    (h : EndsAsPlanned settings calls plan es) :
    (∃ fs f, es = [.aborted (.group fs)] ∧ .raised f ∈ planned settings calls plan) ∨
    ∃ os : List Outcome, planned settings calls plan = os.map .returned ∧
      (es = [.answered (.outcomes os)] ∨ ∃ why, es = [.aborted (.single why)]) := by
  cases h with
  | @broken fs hsome hraised =>
      obtain ⟨f, hf⟩ := List.exists_mem_of_ne_nil fs hsome
      exact .inl ⟨fs, f, rfl, hraised f hf⟩
  | @answered os hplanned => exact .inr ⟨os, hplanned, .inl rfl⟩
  | @unrefreshed os why hplanned => exact .inr ⟨os, hplanned, .inr ⟨why, rfl⟩⟩

theorem raised_not_mem_returned {os : List Outcome}
    (h : planned settings calls plan = os.map .returned) (f : Fault) :
    .raised f ∉ planned settings calls plan := by
  simp [h]

theorem EndsAsPlanned.broken_iff {es : List Ending} (h : EndsAsPlanned settings calls plan es) :
    (∃ fs, es = [.aborted (.group fs)]) ↔ ∃ f, .raised f ∈ planned settings calls plan := by
  rcases h.broken_or_known with ⟨fs, f, rfl, hraised⟩ | ⟨os, hplanned, hes⟩
  · exact iff_of_true ⟨fs, rfl⟩ ⟨f, hraised⟩
  · refine iff_of_false ?_ fun ⟨f, hf⟩ => raised_not_mem_returned hplanned f hf
    rcases hes with rfl | ⟨why, rfl⟩ <;> simp

/-! ## Two uploads -/

section

variable {calls' : List Call} {plan' : Nat → List Reply} {j : Nat} {es es' : List Ending}

theorem getElem?_planned_congr (hcalls : ∀ i ≠ j, calls[i]? = calls'[i]?)
    (hplan : ∀ i ≠ j, plan i = plan' i) {i : Nat} (hi : i ≠ j) :
    (planned settings calls plan)[i]? = (planned settings calls' plan')[i]? := by
  rw [getElem?_planned, getElem?_planned, hcalls i hi, hplan i hi]

theorem mem_planned_congr (hcalls : ∀ i ≠ j, calls[i]? = calls'[i]?)
    (hplan : ∀ i ≠ j, plan i = plan' i) {f : Fault}
    (hunraised : (planned settings calls plan)[j]? ≠ some (.raised f))
    (hmem : .raised f ∈ planned settings calls plan) :
    .raised f ∈ planned settings calls' plan' := by
  obtain ⟨i, hi⟩ := List.mem_iff_getElem?.mp hmem
  have hne : i ≠ j := fun heq => hunraised (heq ▸ hi)
  rw [getElem?_planned_congr hcalls hplan hne] at hi
  exact List.mem_of_getElem? hi

theorem getElem?_outcomes_congr (hcalls : ∀ i ≠ j, calls[i]? = calls'[i]?)
    (hplan : ∀ i ≠ j, plan i = plan' i) {os os' : List Outcome}
    (h : planned settings calls plan = os.map .returned)
    (h' : planned settings calls' plan' = os'.map .returned) {i : Nat} (hi : i ≠ j) :
    os[i]? = os'[i]? := by
  have hsame : (planned settings calls plan)[i]? = (planned settings calls' plan')[i]? :=
    getElem?_planned_congr hcalls hplan hi
  rw [h, h', List.getElem?_map, List.getElem?_map] at hsame
  exact Option.map_injective (fun _ _ => Resolution.returned.inj) hsame

theorem EndsAsPlanned.agree (hcalls : ∀ i ≠ j, calls[i]? = calls'[i]?)
    (hplan : ∀ i ≠ j, plan i = plan' i)
    (hunraised : ∀ f, (planned settings calls plan)[j]? ≠ some (.raised f))
    (hunraised' : ∀ f, (planned settings calls' plan')[j]? ≠ some (.raised f))
    (h : EndsAsPlanned settings calls plan es) (h' : EndsAsPlanned settings calls' plan' es') :
    (∃ fs fs', es = [.aborted (.group fs)] ∧ es' = [.aborted (.group fs')]) ∨
    ∃ os os' : List Outcome, (∀ i ≠ j, os[i]? = os'[i]?) ∧
      (es = [.answered (.outcomes os)] ∨ ∃ why, es = [.aborted (.single why)]) ∧
      (es' = [.answered (.outcomes os')] ∨ ∃ why, es' = [.aborted (.single why)]) := by
  rcases h.broken_or_known with ⟨fs, f, hes, hraised⟩ | ⟨os, hplanned, hes⟩ <;>
    rcases h'.broken_or_known with ⟨fs', f', hes', hraised'⟩ | ⟨os', hplanned', hes'⟩
  · exact .inl ⟨fs, fs', hes, hes'⟩
  · have hshared := mem_planned_congr hcalls hplan (hunraised f) hraised
    exact absurd hshared (raised_not_mem_returned hplanned' f)
  · have hshared := mem_planned_congr (fun i hi => (hcalls i hi).symm)
      (fun i hi => (hplan i hi).symm) (hunraised' f') hraised'
    exact absurd hshared (raised_not_mem_returned hplanned f')
  · exact .inr ⟨os, os', fun i hi => getElem?_outcomes_congr hcalls hplan hplanned hplanned' hi,
      hes, hes'⟩

end

/-! ## Histories -/

namespace History

theorem endsAsPlanned (u : History) (hfollows : (script u.turns).Follows plan)
    (hpending : u.share.pending = []) :
    EndsAsPlanned u.settings u.creations plan u.endings := by
  obtain ⟨-, -, -, stage, last, es, h⟩ := u.goes_through_stages
  exact ends_as_planned h.balances h.describes hpending (h.last_past ▸ hfollows)

theorem getElem?_creations (u : History) (i : Nat) :
    u.creations[i]? =
      u.files[i]?.map fun f => .create (Path.child (Path.normalize u.directory) f.name) f.content :=
  List.getElem?_map

theorem mem_requests (u : History) {i : Nat} {c : Call} {request : Request}
    (hc : u.creations[i]? = some c) (hrequest : c.opening? u.settings = some request) :
    request ∈ u.requests := by
  obtain ⟨-, hperm, -⟩ := u.goes_through_stages
  exact hperm.mem_iff.mpr (List.mem_filterMap.mpr ⟨c, List.mem_of_getElem? hc, hrequest⟩)

/-- Two uploads that differ in one file and in the replies to its requests.  All other files are
sent by both.  An upload that waits for nothing was broken exactly if the exchange of some file
raises a fault; if that of the one file does in neither, then both are broken by another file, or
all other files come to the same in both. -/
theorem siblings_agree (u v : History) {j : Nat} {plan plan' : Nat → List Reply}
    (hsettings : v.settings = u.settings) (hdirectory : v.directory = u.directory)
    (hfiles : ∀ i ≠ j, u.files[i]? = v.files[i]?) (hplan : ∀ i ≠ j, plan i = plan' i)
    (hu : (script u.turns).Follows plan) (hv : (script v.turns).Follows plan') :
    (∀ i ≠ j, ∀ c, u.creations[i]? = some c → ∀ request, c.opening? u.settings = some request →
      request ∈ u.requests ∧ request ∈ v.requests) ∧
    (u.share.pending = [] → v.share.pending = [] →
      ((∃ fs, u.endings = [.aborted (.group fs)]) ↔
        ∃ f, .raised f ∈ planned u.settings u.creations plan) ∧
      ((∃ fs, v.endings = [.aborted (.group fs)]) ↔
        ∃ f, .raised f ∈ planned v.settings v.creations plan') ∧
      ((∀ f, (planned u.settings u.creations plan)[j]? ≠ some (.raised f)) →
        (∀ f, (planned v.settings v.creations plan')[j]? ≠ some (.raised f)) →
        (∃ fs fs', u.endings = [.aborted (.group fs)] ∧ v.endings = [.aborted (.group fs')]) ∨
        ∃ os os' : List Outcome, (∀ i ≠ j, os[i]? = os'[i]?) ∧
          (u.endings = [.answered (.outcomes os)] ∨ ∃ why, u.endings = [.aborted (.single why)]) ∧
          (v.endings = [.answered (.outcomes os')] ∨
            ∃ why, v.endings = [.aborted (.single why)]))) := by
  have hcalls : ∀ i ≠ j, u.creations[i]? = v.creations[i]? := fun i hi => by
    rw [getElem?_creations, getElem?_creations, hfiles i hi, hdirectory]
  refine ⟨fun i hi c hc request hrequest => ⟨u.mem_requests hc hrequest, ?_⟩,
    fun hpending hpending' => ?_⟩
  · exact v.mem_requests (hcalls i hi ▸ hc) (hsettings ▸ hrequest)
  · have hends := u.endsAsPlanned hu hpending
    have hends' := v.endsAsPlanned hv hpending'
    refine ⟨hends.broken_iff, hends'.broken_iff, fun hunraised hunraised' => ?_⟩
    rw [hsettings] at hends' hunraised'
    exact hends.agree hcalls hplan hunraised hunraised' hends'

end History

end Upload

end

namespace Upload.History

attribute [local instance] Client.plain

theorem siblings_agree_of_refusal :
    let created : Reply := .response ⟨201, "Created", [], []⟩
    let refused : Reply := .response ⟨403, "Forbidden", [], []⟩
    let u : History :=
      { settings := { Settings.default with gateway := "http://nn:9870" }
        fragment := "", before := [], owner := 0, directory := "/d", control := none
        files := [⟨"a", [1]⟩, ⟨"b", [2]⟩]
        after := [.reply 2 created, .reply 1 created, .reply 3 (.failure .connect "")]
        idle := rfl, new := by simp }
    let v : History :=
      { u with
        files := [⟨"a", [1]⟩, ⟨"c", [2]⟩]
        after := [.reply 1 created, .reply 2 refused, .reply 3 (.failure .connect "")]
        new := by simp }
    let plan : Nat → List Reply := fun _ => [created]
    let plan' : Nat → List Reply := fun i => if i = 1 then [refused] else [created]
    (∀ i ≠ 1, u.files[i]? = v.files[i]?) ∧ (∀ i ≠ 1, plan i = plan' i) ∧
      (script u.turns).Follows plan ∧ (script v.turns).Follows plan' ∧
      u.share.pending = [] ∧ v.share.pending = [] ∧
      ∃ os os' : List Outcome, (∀ i ≠ 1, os[i]? = os'[i]?) ∧
        u.endings = [.answered (.outcomes os)] ∧ v.endings = [.answered (.outcomes os')] := by
  intro created refused u v plan plan'
  have hfiles : ∀ i ≠ 1, u.files[i]? = v.files[i]? := by
    rintro (_ | _ | i) hi
    · rfl
    · exact absurd rfl hi
    · rfl
  have hplan : ∀ i ≠ 1, plan i = plan' i := fun i hi => (if_neg hi).symm
  have hrun : script u.turns = [(1, created), (0, created)] ∧ u.share.pending = [] ∧
      u.endings = [.answered (.outcomes [.ok .null, .ok .null])] := by decide +kernel
  have hrun' : script v.turns = [(0, created), (1, refused)] ∧ v.share.pending = [] ∧
      v.endings = [.answered (.outcomes [.ok .null, .error (.transport
        ("Permission denied when trying to open " ++
          "http://nn:9870/webhdfs/v1/d/c?op=CREATE: Forbidden") (some 403))])] := by
    decide +kernel
  obtain ⟨hscript, hpending, hended⟩ := hrun
  obtain ⟨hscript', hpending', hended'⟩ := hrun'
  have hu : (script u.turns).Follows plan := by
    rw [hscript]
    rintro (_ | _ | i)
    · exact List.prefix_refl _
    · exact List.prefix_refl _
    · exact List.nil_prefix
  have hv : (script v.turns).Follows plan' := by
    rw [hscript']
    rintro (_ | _ | i)
    · exact List.prefix_refl _
    · exact List.prefix_refl _
    · exact List.nil_prefix
  obtain ⟨-, hends⟩ := siblings_agree u v rfl rfl hfiles hplan hu hv
  obtain ⟨hbroken, hbroken', hagree⟩ := hends hpending hpending'
  have hunraised : ∀ f, (planned u.settings u.creations plan)[1]? ≠ some (.raised f) := by
    intro f hf
    obtain ⟨fs, hfs⟩ := hbroken.mpr ⟨f, List.mem_of_getElem? hf⟩
    simp [hended] at hfs
  have hunraised' : ∀ f, (planned v.settings v.creations plan')[1]? ≠ some (.raised f) := by
    intro f hf
    obtain ⟨fs, hfs⟩ := hbroken'.mpr ⟨f, List.mem_of_getElem? hf⟩
    simp [hended'] at hfs
  refine ⟨hfiles, hplan, hu, hv, hpending, hpending', ?_⟩
  rcases hagree hunraised hunraised' with ⟨fs, fs', hfs, -⟩ | ⟨os, os', hsame, hos, hos'⟩
  · simp [hended] at hfs
  · refine ⟨os, os', hsame, hos.resolve_right ?_, hos'.resolve_right ?_⟩
    · simp [hended]
    · simp [hended']

/-- An unusable reply to the requests of one file, or a name that has no address, leaves the other
file without a result, also when the reply to that one comes later. -/
theorem broken_sibling_takes_all :
    let created : Reply := .response ⟨201, "Created", [], []⟩
    let u : History :=
      { settings := { Settings.default with gateway := "http://nn:9870" }
        fragment := "", before := [], owner := 0, directory := "/d", control := none
        files := [⟨"a", [1]⟩, ⟨"b", [2]⟩]
        after := [.reply 2 created, .reply 1 created, .reply 3 (.failure .connect "")]
        idle := rfl, new := by simp }
    let v : History :=
      { u with
        after := [.reply 2 (.broken (.undecodable "bad")), .reply 1 created]
        new := by simp }
    let w : History := { u with files := [⟨"a", [1]⟩, ⟨"b\n", [2]⟩] }
    u.endings = [.answered (.outcomes [.ok .null, .ok .null])] ∧
      v.endings = [.aborted (.group [.undecodable "bad"])] ∧
      w.endings = [.aborted (.group [.address (.control '\n' 29)])] := by
  decide +kernel

end Upload.History

end HdfsBrowser
