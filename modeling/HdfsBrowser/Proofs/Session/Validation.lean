import HdfsBrowser.Proofs.Gateway.Resource
import HdfsBrowser.Proofs.Session.Browsing
import HdfsBrowser.Proofs.Session.Control
import HdfsBrowser.Proofs.Session.Permission
import HdfsBrowser.Proofs.Settings.Conversion

/-!
# What is refused on the spot

A new directory needs a name, one of owner and group has to be given, and there
has to be at least one replica.  Input that lacks this is refused with a
message, and nothing but the message comes of it.  All other input becomes one
call, and what was checked is what the call asks for.  Nothing else is sent with
PUT for it later.
-/

namespace HdfsBrowser

/-! ## Cutting off both ends -/

namespace Text

structure Trims (p : Char → Bool) (text kept : String) : Prop where
  split : ∃ before after, text.toList = before ++ kept.toList ++ after ∧
    (∀ c ∈ before, p c = true) ∧ ∀ c ∈ after, p c = true
  head : ∀ c ∈ kept.toList.head?, p c = false
  last : ∀ c ∈ kept.toList.getLast?, p c = false

variable {p : Char → Bool} {text kept : String}

theorem trims_trimBy (p : Char → Bool) (text : String) :
    Trims p text (String.ofList (trimBy p text.toList)) := by
  have hends : trimBy p text.toList = (text.toList.dropWhile p).rdropWhile p := rfl
  rw [hends]
  refine ⟨⟨text.toList.takeWhile p, (text.toList.dropWhile p).rtakeWhile p, ?_, ?_, ?_⟩, ?_, ?_⟩
  · rw [String.toList_ofList, List.append_assoc, List.rdropWhile_append_rtakeWhile,
      List.takeWhile_append_dropWhile]
  · exact fun c hc => List.mem_takeWhile_imp hc
  · exact fun c hc => List.mem_rtakeWhile_imp hc
  · rw [String.toList_ofList]
    intro c hc
    have hfirst := List.head?_dropWhile_not p text.toList
    obtain ⟨rest, hrest⟩ := List.rdropWhile_prefix p (l := text.toList.dropWhile p)
    rw [← hrest, List.head?_append, Option.mem_def.mp hc] at hfirst
    simpa using hfirst
  · rw [String.toList_ofList]
    intro c hc
    obtain ⟨hne, rfl⟩ := List.mem_getLast?_eq_getLast hc
    simpa using List.rdropWhile_last_not p _ hne

theorem Trims.eq_empty_iff (h : Trims p text kept) : kept = "" ↔ ∀ c ∈ text.toList, p c = true := by
  obtain ⟨before, after, htext, hbefore, hafter⟩ := h.split
  constructor
  · rintro rfl c hc
    rw [htext] at hc
    simp only [String.toList_empty, List.append_nil, List.mem_append] at hc
    exact hc.elim (hbefore c) (hafter c)
  · intro hall
    by_contra hne
    cases hkept : kept.toList with
    | nil => exact hne (String.toList_inj.mp hkept)
    | cons c cs =>
        have hmem : c ∈ text.toList := by simp [htext, hkept]
        have hfirst := h.head c (by simp [hkept])
        simp [hall c hmem] at hfirst

theorem Trims.subset (h : Trims p text kept) : kept.toList ⊆ text.toList := by
  obtain ⟨before, after, htext, -, -⟩ := h.split
  intro c hc
  simp [htext, hc]

end Text

/-! ## Typed input -/

namespace Change

inductive Typed where
  | makeDirectory (parent name : String)
  | setOwner (path owner group : String)
  | setReplication (path count : String)
  deriving DecidableEq, Repr

def given (key value : String) : List (String × String) :=
  if value = "" then [] else [(key, value)]

namespace Typed

def change : Typed → Change
  | makeDirectory parent name => .makeDirectory parent name none
  | setOwner path owner group => .setOwner path (.str owner) (.str group)
  | setReplication path count => .setReplication path (.str count)

/-- A name of slashes, an owner and a group of blanks, or a count that is not at least one. -/
def IsRefused : Typed → Prop
  | makeDirectory _ name => ∀ c ∈ name.toList, c = '/'
  | setOwner _ owner group =>
    (∀ c ∈ owner.toList, Text.isBlank c = true) ∧ ∀ c ∈ group.toList, Text.isBlank c = true
  | setReplication _ count => ∀ n, Numeral.read count = .ok n → n < 1

def IsClean : Typed → Prop
  | makeDirectory parent name => ∀ c ∈ parent.toList ++ name.toList, Url.isControl c = false
  | setOwner path _ _ => ∀ c ∈ path.toList, Url.isControl c = false
  | setReplication path _ => ∀ c ∈ path.toList, Url.isControl c = false

inductive Becomes : Typed → Call → Prop
  | makeDirectory {parent name kept : String} (hkept : Text.Trims (· == '/') name kept) :
      Becomes (.makeDirectory parent name)
        ⟨.makeDirectory, Path.child (Path.normalize parent) kept, [], []⟩
  | setOwner {path owner group owner' group' : String}
      (howner : Text.Trims Text.isBlank owner owner')
      (hgroup : Text.Trims Text.isBlank group group') :
      Becomes (.setOwner path owner group)
        ⟨.setOwner, path, given "owner" owner' ++ given "group" group', []⟩
  | setReplication {path count : String} {n : Int} (hcount : Numeral.read count = .ok n) :
      Becomes (.setReplication path count)
        ⟨.setReplication, path, [("replication", Numeral.text n)], []⟩

/-! ### What is refused -/

theorem slashes_iff (name : String) : Path.trimSlashes name = "" ↔ ∀ c ∈ name.toList, c = '/' := by
  have hslashes := (Text.trims_trimBy (· == '/') name).eq_empty_iff
  simp only [beq_iff_eq] at hslashes
  exact hslashes

theorem blanks_iff (text : String) :
    Text.strip text = "" ↔ ∀ c ∈ text.toList, Text.isBlank c = true :=
  (Text.trims_trimBy Text.isBlank text).eq_empty_iff

theorem replicationCall_of_str (path count : String) :
    replicationCall path (.str count) =
      match Numeral.read count with
      | .ok n =>
        if n < 1 then .error (.rejected (.replication count))
        else .ok (.setReplication path (Numeral.text n))
      | .error _ => .error (.rejected (.replication count)) := by
  have hrejected : replicationRejected (.str count) = .error (.rejected (.replication count)) := rfl
  have hinteger : (Value.str count).asInteger = (Numeral.read count).mapError .numeral := rfl
  rw [replicationCall, hinteger, hrejected]
  cases hread : Numeral.read count with
  | error why => rfl
  | ok n =>
      have hwrite : Numeral.write n = .ok (Numeral.text n) := if_pos (Numeral.fits_of_read hread)
      simp only [Except.mapError, hwrite, Except.map]

theorem call_of_isRefused {input : Typed} (h : input.IsRefused) :
    ∃ why, input.change.call = .error (.rejected why) := by
  cases input with
  | makeDirectory parent name => exact ⟨.emptyName, if_pos ((slashes_iff name).mpr h)⟩
  | setOwner path owner group =>
      exact ⟨.noOwner, if_pos ⟨(blanks_iff owner).mpr h.1, (blanks_iff group).mpr h.2⟩⟩
  | setReplication path count =>
      refine ⟨.replication count, (replicationCall_of_str path count).trans ?_⟩
      cases hread : Numeral.read count with
      | error why => rfl
      | ok n => exact if_pos (h n hread)

/-! ### What is asked for -/

theorem setOwner_eq (path owner group : String) :
    Call.setOwner path owner group =
      ⟨.setOwner, path, given "owner" owner ++ given "group" group, []⟩ := by
  unfold Call.setOwner given
  by_cases howner : owner = "" <;> by_cases hgroup : group = "" <;> simp [howner, hgroup]

theorem call_of_not_isRefused {input : Typed} (h : ¬ input.IsRefused) :
    ∃ call, input.change.call = .ok call ∧ input.Becomes call := by
  cases input with
  | makeDirectory parent name =>
      exact ⟨_, if_neg fun hempty => h ((slashes_iff name).mp hempty),
        .makeDirectory (Text.trims_trimBy _ name)⟩
  | setOwner path owner group =>
      refine ⟨_, if_neg fun hempty => h ⟨(blanks_iff owner).mp hempty.1,
        (blanks_iff group).mp hempty.2⟩, ?_⟩
      rw [setOwner_eq]
      exact .setOwner (Text.trims_trimBy _ owner) (Text.trims_trimBy _ group)
  | setReplication path count =>
      change ¬ ∀ n, Numeral.read count = .ok n → n < 1 at h
      push Not at h
      obtain ⟨n, hread, hn⟩ := h
      refine ⟨.setReplication path (Numeral.text n), (replicationCall_of_str path count).trans ?_,
        .setReplication hread⟩
      rw [hread]
      exact if_neg (Int.not_lt.mpr hn)

theorem Becomes.isRead {input : Typed} {call : Call} (h : input.Becomes call) :
    call.operation.isRead = false := by
  cases h <;> rfl

theorem Becomes.keys {input : Typed} {call : Call} (h : input.Becomes call) :
    (call.parameters.map Prod.fst).Nodup ∧
      ∀ key ∈ call.parameters.map Prod.fst, key ≠ "op" ∧ key ≠ "user.name" := by
  cases h with
  | makeDirectory => simp
  | @setOwner _ _ _ owner group =>
      by_cases howner : owner = "" <;> by_cases hgroup : group = "" <;>
        simp [given, howner, hgroup]
  | setReplication => simp

theorem Becomes.clean {input : Typed} {call : Call} (h : input.Becomes call)
    (hclean : input.IsClean) : ∀ c ∈ call.path.toList, Url.isControl c = false := by
  cases h with
  | setOwner => exact hclean
  | setReplication => exact hclean
  | @makeDirectory parent name kept hkept =>
      have hparts : ∀ c ∈ parent.toList ++ name.toList, Url.isControl c = false := hclean
      intro c hc
      rcases Path.mem_child hc with hparent | rfl | hname
      · rcases Path.mem_normalize hparent with rfl | hparent
        · rfl
        · exact hparts c (List.mem_append_left _ hparent)
      · rfl
      · exact hparts c (List.mem_append_right _ (hkept.subset hname))

end Typed

end Change

/-! ## Sessions -/

namespace Session

open Change (Typed)

variable {s t : Session} {owner : Nat} {input : Typed} {call : Call}

structure Refuses (s t : Session) (owner : Nat) (why : Rejection) : Prop where
  ends : s.EndsBy t owner (.answered (.outcome (.error (.rejected why))))
    { s.console.navigation with
      screen := s.console.navigation.screen.showError (.str why.message) }
  enabled : ∀ name, t.console.isEnabled name = s.console.isEnabled name

section

variable [Client]

/-- The request of a call is sent, or it has no address and raises a fault. -/
inductive Makes (s t : Session) (owner : Nat) (call : Call) : Prop
  | sent {address q : String} {request : Request}
      (hrequest : call.request s.console.settings = .ok (address, request))
      (hsent : t.sent = s.sent ++ [request]) (hended : t.ended = s.ended)
      (hmethod : request.method = .put) (hquery : request.address.query = some q)
      (hpairs : Form.decode q = ("op", call.operation.name) :: call.parameters ++
        (if s.console.settings.user = "" then []
          else [("user.name", s.console.settings.user)]))
  | unaddressed {why : UrlFault} (hrequest : call.request s.console.settings = .error why)
      (hsent : t.sent = s.sent)
      (hended : t.ended = s.ended ++ [(owner, .aborted (.single (.address why)))])

theorem Makes.not_refuses (h : s.Makes t owner call) (why : Rejection) :
    ¬ s.Refuses t owner why := by
  intro hrefuses
  cases h with
  | sent _ hsent => simp [hrefuses.ends.sent] at hsent
  | unaddressed _ _ hended => simp [hrefuses.ends.ended] at hended

theorem refuses_of_isRefused (h : input.IsRefused) (s : Session) (owner : Nat)
    (control : Option String) :
    ∃ why, s.Refuses (s.start owner (.change input.change control)) owner why := by
  obtain ⟨why, hcall⟩ := Typed.call_of_isRefused h
  refine ⟨why, endsBy_start_of_rejected hcall owner control, fun name => ?_⟩
  simp only [start, Activity.begin, Activity.change, hcall]
  exact Console.isEnabled_register s.console control name

theorem makes_of_becomes (hcall : input.change.call = .ok call) (hbecomes : input.Becomes call)
    (s : Session) (owner : Nat) (control : Option String) :
    s.Makes (s.start owner (.change input.change control)) owner call := by
  cases hrequest : call.request s.console.settings with
  | ok sent =>
      obtain ⟨address, request⟩ := sent
      obtain ⟨hsent, hended⟩ := sent_start hcall hrequest owner control
      obtain ⟨hnodup, hkeys⟩ := hbecomes.keys
      obtain ⟨q, hquery, hpairs⟩ :=
        Call.decode_query_of_request (Call.nodup_query hnodup hkeys) hrequest
      have hmethod := (Call.shape_of_request hrequest).1
      rw [hbecomes.isRead] at hmethod
      exact .sent hrequest hsent hended hmethod hquery hpairs
  | error why =>
      have hends := endsBy_start_of_unaddressed hcall hrequest owner control
      exact .unaddressed hrequest hends.sent hends.ended

/-- The requests that are ever sent with PUT on their own account for an action that is begun in a
session, whatever run has led to the session and however that one goes on. -/
def Posts (s : Session) (owner : Nat) (action : Action) (requests : List Request) : Prop :=
  ∀ (fragment : String) (before after : List Event),
    s = (opening s.console.settings fragment).run before → s.activity? owner = none →
    let c := (Chronicle.opening s.console.settings fragment).run before
    ((c.run (.start owner action :: after)).posted.filter (·.origin = c.begun.length)).map
      (·.draft.request) = requests

theorem posts_change (s : Session) (owner : Nat) (ch : Change) (control : Option String) :
    s.Posts owner (.change ch control)
      (ch.call.toOption.toList.filterMap (Call.opening? s.console.settings)) := by
  intro fragment before after hs hidle c
  rw [hs] at hidle
  rw [Chronicle.posted_of_start fragment before after _ hidle]
  have hperm := Letter.requests_postings_perm s.console.settings c.begun.length
    (.change ch control)
  rw [Action.changes] at hperm
  cases hrequests : ch.call.toOption.toList.filterMap (Call.opening? s.console.settings) with
  | nil => exact (hrequests ▸ hperm).eq_nil
  | cons request rest =>
      have hlength : (request :: rest).length ≤ 1 := by
        rw [← hrequests]
        exact (List.length_filterMap_le _ _).trans (by cases ch.call.toOption <;> simp)
      obtain rfl : rest = [] := by simpa using hlength
      exact (hrequests ▸ hperm).eq_singleton

/-- What is typed is refused exactly if there is no name, no owner and no group, or no count of at
least one in it, and then nothing is ever sent with PUT for it.  Otherwise one call of a change is
made, to the path and with the parameters that are meant, and its request is the only one that is
sent then and the only one that is ever sent with PUT for it, however the session goes on.  Where
the gateway is a host and no control character was typed, nothing but its length keeps the call from
having an address. -/
theorem typed_change_is_checked (s : Session) (owner : Nat) (control : Option String)
    (input : Typed) :
    let action : Action := .change input.change control
    let t := s.start owner action
    let settings := s.console.settings
    ((∃ why, s.Refuses t owner why) ↔ input.IsRefused) ∧
    (input.IsRefused → s.Posts owner action []) ∧
    (¬ input.IsRefused → ∃ call, input.Becomes call ∧ call.operation.isRead = false ∧
      (Activity.begin s.console action).2 = .waiting ⟨control, .changing⟩ [call] ∧
      s.Makes t owner call ∧ s.Posts owner action (call.opening? settings).toList ∧
      ∀ authority gateway, settings.IsDirect authority gateway → input.IsClean →
        ((∃ text, call.address settings = .ok text) ↔
          (Call.base settings call.path).length ≤ Url.lengthLimit ∧
            (Form.query (call.query settings)).length ≤ Url.lengthLimit)) := by
  intro action t settings
  have hposts := s.posts_change owner input.change control
  have haccepted (h : ¬ input.IsRefused) : ∃ call, input.change.call = .ok call ∧
      input.Becomes call ∧ s.Makes t owner call := by
    obtain ⟨call, hcall, hbecomes⟩ := Typed.call_of_not_isRefused h
    exact ⟨call, hcall, hbecomes, makes_of_becomes hcall hbecomes s owner control⟩
  refine ⟨⟨?_, fun h => refuses_of_isRefused h s owner control⟩, fun h => ?_, fun h => ?_⟩
  · rintro ⟨why, hrefuses⟩
    by_contra h
    obtain ⟨call, -, -, hmakes⟩ := haccepted h
    exact hmakes.not_refuses why hrefuses
  · obtain ⟨why, hcall⟩ := Typed.call_of_isRefused h
    simpa [hcall, Except.toOption] using hposts
  · obtain ⟨call, hcall, hbecomes, hmakes⟩ := haccepted h
    refine ⟨call, hbecomes, hbecomes.isRead, ?_, hmakes, ?_, fun authority gateway hdirect hclean =>
      Call.exists_address_iff hdirect (hbecomes.clean hclean)⟩
    · simp only [action, Activity.begin, Activity.change, hcall]
    · cases hopening : call.opening? s.console.settings <;>
        simpa [hcall, Except.toOption, hopening, settings] using hposts

end

attribute [local instance] Client.plain

theorem typed_change_is_checked_of_digits :
    let settings := { Settings.default with gateway := "http://nn:9870" }
    let s := opening settings ""
    let slashes : Typed := .makeDirectory "/a" "//"
    let count : Typed := .setReplication "/f" " +1_٢ "
    let address : Url :=
      ⟨"http", "", "nn", some 9870, "/webhdfs/v1/f", some "op=SETREPLICATION&replication=12", none⟩
    (∃ why, s.Refuses (s.start 0 (.change slashes.change none)) 0 why) ∧
      s.Posts 0 (.change slashes.change none) [] ∧
      count.Becomes ⟨.setReplication, "/f", [("replication", "12")], []⟩ ∧
      (∃ call, count.Becomes call ∧ s.Makes (s.start 1 (.change count.change none)) 1 call) ∧
      ∀ after,
        let c := (Chronicle.opening settings "").run (.start 1 (.change count.change none) :: after)
        (c.posted.filter (·.origin = 0)).map (·.draft.request) = [⟨.put, address, []⟩] := by
  intro settings s slashes count address
  have hread : Numeral.read " +1_٢ " = .ok 12 := by decide +kernel
  have hslashes : slashes.IsRefused := show ∀ c ∈ ['/', '/'], c = '/' by simp
  have hcount : ¬ count.IsRefused := fun h => absurd (h 12 hread) (by decide)
  obtain ⟨hrefuses, hsilent, -⟩ := typed_change_is_checked s 0 none slashes
  obtain ⟨call, hbecomes, -, -, hmakes, hposts, -⟩ :=
    (typed_change_is_checked s 1 none count).2.2 hcount
  refine ⟨hrefuses.mpr hslashes, hsilent hslashes, .setReplication hread, ⟨call, hbecomes, hmakes⟩,
    fun after => ?_⟩
  have hopening : call.opening? settings = some ⟨.put, address, []⟩ := by
    have hcounted : Typed.Becomes (.setReplication "/f" " +1_٢ ") call := hbecomes
    cases hcounted with
    | setReplication hcount =>
        obtain rfl := Except.ok.inj (hread.symm.trans hcount)
        decide +kernel
  have hposted := hposts "" [] after rfl rfl
  rwa [show call.opening? s.console.settings = some ⟨.put, address, []⟩ from hopening] at hposted

end Session

end HdfsBrowser
