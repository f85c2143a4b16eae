import HdfsBrowser.Proofs.Gateway.Query
import HdfsBrowser.Proofs.Permission.Text
import HdfsBrowser.Proofs.Session.Change

/-!
# Changes of permissions

Permission bits come to a change as a text or as a number, and leave it as the
value of a parameter.  In between they are refused with a message, or they are
octal digits of ASCII for the same number.  Nothing else happens to them, except
to the texts and numbers that slip through the check: these raise a fault that
nobody catches, or they are sent with an 8 or a 9.
-/

namespace HdfsBrowser

open Permission (Denotes Input IsOctal IsPlain SlipsThrough)

namespace Change

inductive Sets (given : Value) : Change → Prop
  | entry (path : String) : Sets given (.setPermission path (.bits given))
  | directory (parent name : String) : Sets given (.makeDirectory parent name (some (.bits given)))

def IsNameless : Change → Prop
  | .makeDirectory _ name _ => Path.trimSlashes name = ""
  | _ => False

variable {given : Value} {ch : Change}

theorem call_of_isNameless (hsets : ch.Sets given) (h : ch.IsNameless) :
    ch.call = .error (.rejected .emptyName) := by
  cases hsets with
  | entry path => exact h.elim
  | directory parent name => exact if_pos h

theorem exists_call_of_sets (hsets : ch.Sets given) (hnamed : ¬ ch.IsNameless) :
    ∃ f : String → Call, ch.call = (Input.bits given).digits.map f ∧
      ∀ text, (f text).operation.isRead = false ∧ (f text).parameters = [("permission", text)] := by
  cases hsets with
  | entry path => exact ⟨Call.setPermission path, rfl, fun _ => ⟨rfl, rfl⟩⟩
  | directory parent name =>
      have hname : Path.trimSlashes name ≠ "" := hnamed
      refine ⟨fun text => Call.makeDirectory
        (Path.child (Path.normalize parent) (Path.trimSlashes name)) (some text), ?_,
        fun _ => ⟨rfl, rfl⟩⟩
      cases hdigits : (Input.bits given).digits <;>
        simp [call, directoryCall, hname, hdigits, bind, Except.bind, Except.map]

end Change

namespace Session

variable {s t : Session} {owner : Nat} {ch : Change} {given : Value}

/-- What is meant to become of bits: they are refused with a message and nothing is sent, or one
request of a change is sent whose permission is octal digits of ASCII for them. -/
inductive SettlesBits (s t : Session) (owner : Nat) (given : Value) : Prop
  | refused {why : Rejection} (hsent : t.sent = s.sent)
      (hended : t.ended = s.ended ++ [(owner, .answered (.outcome (.error (.rejected why))))])
      (hshown : t.console.screen.message = .str why.message)
  | asked {request : Request} {op : Operation} {q text : String} {bits : Nat}
      (hsent : t.sent = s.sent ++ [request]) (hended : t.ended = s.ended)
      (hmethod : request.method = .put) (hquery : request.address.query = some q)
      (hpairs : Form.decode q = ("op", op.name) :: ("permission", text) ::
        (if s.console.settings.user = "" then [] else [("user.name", s.console.settings.user)]))
      (hoctal : IsOctal text bits) (hdenotes : Denotes given bits)

theorem SettlesBits.not_aborted (h : s.SettlesBits t owner given) (why : Abort) :
    t.ended ≠ s.ended ++ [(owner, .aborted why)] := by
  cases h with
  | refused _ hended _ => simp [hended]
  | asked _ hended => simp [hended]

theorem query_of_parameters (settings : Settings) {call : Call} {text : String}
    (hparameters : call.parameters = [("permission", text)]) :
    call.query settings = ("op", call.operation.name) :: ("permission", text) ::
      (if settings.user = "" then [] else [("user.name", settings.user)]) := by
  rw [Call.query, hparameters]
  rfl

section

variable [Client]

/-! ## How a change begins -/

theorem ended_start_of_fault {f : Fault} (hcall : ch.call = .error f)
    (hfault : ∀ why, f ≠ .rejected why) (owner : Nat) (control : Option String) :
    (s.start owner (.change ch control)).ended = s.ended ++ [(owner, .aborted (.single f))] := by
  simp only [start, Activity.begin, Activity.change, hcall]
  cases f with
  | rejected why => exact absurd rfl (hfault why)
  | _ => rfl

theorem endsBy_start_of_rejected {why : Rejection} (hcall : ch.call = .error (.rejected why))
    (owner : Nat) (control : Option String) :
    s.EndsBy (s.start owner (.change ch control)) owner
      (.answered (.outcome (.error (.rejected why))))
      { s.console.navigation with
        screen := s.console.navigation.screen.showError (.str why.message) } := by
  have hnavigation : (s.console.register control).navigation = s.console.navigation :=
    Activity.navigation_register s.console control
  simp only [start, Activity.begin, Activity.change, hcall]
  refine ⟨rfl, rfl, isIdle_close _ owner _, ?_⟩
  rw [← hnavigation]
  rfl

theorem endsBy_start_of_unaddressed {call : Call} {why : UrlFault} (hcall : ch.call = .ok call)
    (hrequest : call.request s.console.settings = .error why) (owner : Nat)
    (control : Option String) :
    s.EndsBy (s.start owner (.change ch control)) owner (.aborted (.single (.address why)))
      s.console.navigation := by
  let c : Console := (s.console.register control).disable control
  let a : Activity := ⟨control, .changing⟩
  have hsettings : c.settings = s.console.settings := by simp [c]
  have hnavigation : c.navigation = s.console.navigation :=
    (Activity.navigation_disable _ control).trans (Activity.navigation_register _ control)
  rw [← hsettings] at hrequest
  have hstart : s.start owner (.change ch control) =
      ({ s with console := c }.setActivity owner a).abort owner a [.address why] := by
    rw [← wait_of_fault { s with console := c } hrequest owner a]
    simp only [start, Activity.begin, Activity.change, hcall]
    rfl
  have hends := endsBy_abort ({ s with console := c }.setActivity owner a) owner a [.address why]
  rw [hstart]
  exact ⟨hends.sent, hends.ended, hends.idle, hends.navigation.trans hnavigation⟩

theorem sent_start {call : Call} {address : String} {request : Request} (hcall : ch.call = .ok call)
    (hrequest : call.request s.console.settings = .ok (address, request)) (owner : Nat)
    (control : Option String) :
    (s.start owner (.change ch control)).sent = s.sent ++ [request] ∧
      (s.start owner (.change ch control)).ended = s.ended := by
  obtain ⟨c, -, hstart⟩ := start_change hcall hrequest owner control
  rw [hstart]
  exact ⟨rfl, rfl⟩

/-! ## How bits are settled -/

theorem settlesBits_of_rejected {why : Rejection} (hcall : ch.call = .error (.rejected why))
    (owner : Nat) (control : Option String) :
    s.SettlesBits (s.start owner (.change ch control)) owner given := by
  have hends := endsBy_start_of_rejected (s := s) hcall owner control
  refine .refused hends.sent hends.ended ?_
  rw [Console.screen, hends.navigation]
  rfl

theorem decode_query_of_parameters {settings : Settings} {call : Call} {text address : String}
    {request : Request} (hparameters : call.parameters = [("permission", text)])
    (hrequest : call.request settings = .ok (address, request)) :
    ∃ q, request.address.query = some q ∧
      Form.decode q = ("op", call.operation.name) :: ("permission", text) ::
        (if settings.user = "" then [] else [("user.name", settings.user)]) := by
  rw [← query_of_parameters settings hparameters]
  refine Call.decode_query_of_request (Call.nodup_query ?_ ?_) hrequest
  · simp [hparameters]
  · simp [hparameters]

theorem settlesBits_of_request {call : Call} {text address : String} {request : Request}
    (hcall : ch.call = .ok call) (hchanges : call.operation.isRead = false)
    (hparameters : call.parameters = [("permission", text)])
    (hrequest : call.request s.console.settings = .ok (address, request)) (owner : Nat)
    (control : Option String) :
    s.SettlesBits (s.start owner (.change ch control)) owner given ↔
      ∃ bits, IsOctal text bits ∧ Denotes given bits := by
  obtain ⟨hsent, hended⟩ := sent_start hcall hrequest owner control
  obtain ⟨q, hquery, hpairs⟩ := decode_query_of_parameters hparameters hrequest
  constructor
  · intro h
    cases h with
    | refused hnone _ _ => simp [hsent] at hnone
    | @asked request' op q' text' bits hsent' _ _ hquery' hpairs' hoctal hdenotes =>
        obtain rfl : request = request' := by simpa [hsent] using hsent'
        obtain rfl : q = q' := by simpa [hquery] using hquery'
        have htext : text = text' := by
          rw [hpairs] at hpairs'
          simp only [List.cons.injEq, Prod.mk.injEq, true_and] at hpairs'
          exact hpairs'.2.1
        exact ⟨bits, htext ▸ hoctal, hdenotes⟩
  · rintro ⟨bits, hoctal, hdenotes⟩
    have hmethod := (Call.shape_of_request hrequest).1
    rw [hchanges] at hmethod
    exact .asked hsent hended hmethod hquery hpairs hoctal hdenotes

/-- Bits are settled as they are meant to be exactly if they do not slip through, or nothing is made
of them because the new directory has no name, and the place that they are for has an address.  They
have ten characters, or none with a reason, exactly if they do not slip through. -/
theorem permissions_settle_iff (s : Session) (owner : Nat) (control : Option String)
    (hplain : IsPlain given) (hsets : ch.Sets given) :
    (s.SettlesBits (s.start owner (.change ch control)) owner given ↔
      (¬ SlipsThrough given ∨ ch.IsNameless) ∧
        ∀ call, ch.call = .ok call → ∃ sent, call.request s.console.settings = .ok sent) ∧
    ∀ isDirectory, ((∃ why, Permission.decode given isDirectory = .error (.rejected why)) ∨
      ∃ bits, Denotes given bits ∧
        Permission.decode given isDirectory = .ok (Permission.symbolic bits isDirectory)) ↔
      ¬ SlipsThrough given := by
  refine ⟨?_, Permission.decode_settles_iff hplain⟩
  by_cases hnamed : ch.IsNameless
  · have hcall := Change.call_of_isNameless hsets hnamed
    refine iff_of_true (settlesBits_of_rejected hcall owner control)
      ⟨.inr hnamed, fun call hok => ?_⟩
    simp [hcall] at hok
  obtain ⟨f, hcall, hf⟩ := Change.exists_call_of_sets hsets hnamed
  rw [← Permission.digits_settle_iff hplain]
  simp only [hnamed, or_false]
  cases hdigits : (Input.bits given).digits with
  | ok text =>
      obtain ⟨hchanges, hparameters⟩ := hf text
      replace hcall : ch.call = .ok (f text) := by rw [hcall, hdigits]; rfl
      cases hrequest : (f text).request s.console.settings with
      | ok sent =>
          obtain ⟨address, request⟩ := sent
          rw [settlesBits_of_request hcall hchanges hparameters hrequest owner control]
          simp [hcall, hrequest]
      | error why =>
          have hended := (endsBy_start_of_unaddressed hcall hrequest owner control).ended
          exact iff_of_false (fun h => h.not_aborted _ hended) (by simp [hcall, hrequest])
  | error why =>
      replace hcall : ch.call = .error why := by rw [hcall, hdigits]; rfl
      cases why with
      | rejected why =>
          exact iff_of_true (settlesBits_of_rejected hcall owner control)
            ⟨.inl ⟨why, rfl⟩, by simp [hcall]⟩
      | _ =>
          have hended := ended_start_of_fault (s := s) hcall (by simp) owner control
          exact iff_of_false (fun h => h.not_aborted _ hended) (by simp)

end

attribute [local instance] Client.plain

theorem permissions_settle_of_blanks :
    let settings := { Settings.default with gateway := "http://nn:9870", user := "u" }
    let s := opening settings ""
    let ch : Change := .makeDirectory "/" "d" (some (.bits (.str " 0755 ")))
    IsPlain (.str " 0755 ") ∧ ch.Sets (.str " 0755 ") ∧
      s.SettlesBits (s.start 0 (.change ch none)) 0 (.str " 0755 ") := by
  intro settings s ch
  let call := Call.makeDirectory "/d" (some "755")
  let address := "http://nn:9870/webhdfs/v1/d?op=MKDIRS&permission=755&user.name=u"
  let request : Request := ⟨.put, ⟨"http", "", "nn", some 9870, "/webhdfs/v1/d",
    some "op=MKDIRS&permission=755&user.name=u", none⟩, []⟩
  have hplain : IsPlain (.str " 0755 ") := trivial
  have hsets : ch.Sets (.str " 0755 ") := .directory "/" "d"
  have hcall : ch.call = .ok call := by decide
  have hrequest : call.request settings = .ok (address, request) := by decide +kernel
  obtain ⟨hsettles, hdecode⟩ := permissions_settle_iff s 0 none hplain hsets
  have hchecked : ¬ SlipsThrough (.str " 0755 ") :=
    (hdecode false).mp (.inr ⟨755, by unfold Denotes; decide, by decide⟩)
  refine ⟨hplain, hsets, hsettles.mpr ⟨.inl hchecked, fun call' hok => ?_⟩⟩
  obtain rfl : call = call' := by simpa [hcall] using hok
  exact ⟨(address, request), hrequest⟩

/-- A superscript passes for a digit and is no number, which nobody catches. -/
theorem superscript_raises :
    let s := opening Settings.default ""
    let ch : Change := .setPermission "/f" (.bits (.str "²"))
    let t := s.start 0 (.change ch none)
    t.sent = [] ∧ t.ended = [(0, .aborted (.single (.numeral (.malformed "²"))))] ∧
      ¬ s.SettlesBits t 0 (.str "²") ∧
      Permission.decode (.str "²") false = .error (.numeral (.malformed "²")) := by
  intro s ch t
  have hended : t.ended = [(0, .aborted (.single (.numeral (.malformed "²"))))] := by
    decide +kernel
  exact ⟨by decide +kernel, hended, fun h => h.not_aborted _ hended, by decide +kernel⟩

example :
    let s := opening Settings.default ""
    let t := s.start 0 (.change (.setPermission "/f" (.bits (.str "٨"))) none)
    t.sent.map (·.address.query) = [some "op=SETPERMISSION&permission=008"] ∧ t.ended = [] ∧
      Permission.decode (.str "٨") false = .error .noEntry := by
  decide +kernel

end Session

end HdfsBrowser
