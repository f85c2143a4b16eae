import HdfsBrowser.Proofs.Gateway.Query
import HdfsBrowser.Proofs.Session.Deed
import HdfsBrowser.Settings.Store
import Mathlib.Data.List.DropRight

/-!
# The tail of a file

A preview asks for a window that ends with the file.  The settings say how many
bytes the window has, and a window that would begin before the file has all of
it.  The offset of the request is where the window begins, so a gateway that
honours it gives the bytes of the window, and these are shown as they are read.
A negative number of bytes is not refused: then the window begins behind the
file, and nothing of the file is shown.
-/

namespace HdfsBrowser

/-! ## Windows -/

namespace TailWindow

theorem start_nonneg (length size : Int) : 0 ≤ (ofFile length size).start := by
  simp only [ofFile]
  omega

theorem start_le_stop_iff (length : Nat) (size : Int) :
    (ofFile length size).start ≤ (ofFile length size).stop ↔ 0 ≤ size := by
  simp only [ofFile]
  omega

theorem drop_start (content : Bytes) (size : Int) :
    content.drop (ofFile content.length size).start.toNat =
      content.rtake (min content.length size.toNat) := by
  rw [List.rtake]
  by_cases hsize : 0 ≤ size
  · congr 1
    simp only [ofFile]
    omega
  · have hstart : content.length ≤ (ofFile content.length size).start.toNat := by
      simp only [ofFile]
      omega
    have hkept : content.length ≤ content.length - min content.length size.toNat := by omega
    rw [List.drop_eq_nil_of_le hstart, List.drop_eq_nil_of_le hkept]

end TailWindow

/-! ## Offsets of requests -/

def Request.offset? (request : Request) : Option String :=
  (Form.decode (request.address.query.getD "")).lookup "offset"

/-- The gateway gives all bytes of a file when a request has no offset, else those from there on. -/
structure Serves (content : Bytes) (request : Request) (response : Response) : Prop where
  success : response.isSuccess = true
  whole : request.offset? = none → response.body = content
  rest : ∀ k : Nat, request.offset? = some (Numeral.text k) → response.body = content.drop k

theorem Call.offset?_of_reading [Client] {settings : Settings} {path address : String}
    {w : TailWindow} {request : Request}
    (h : (reading path w.offset?).request settings = .ok (address, request)) :
    request.offset? = w.offset?.map Numeral.text := by
  by_cases hstart : w.start = 0
  · have hcall : reading path w.offset? = ⟨.openFile, path, [], []⟩ := by
      rw [TailWindow.offset?, if_pos hstart, reading]
    rw [hcall] at h
    obtain ⟨q, hq, hdecode⟩ := decode_query_of_request (nodup_query (by simp) (by simp)) h
    rw [Request.offset?, hq, Option.getD_some, hdecode, TailWindow.offset?, if_pos hstart, query]
    split <;> rfl
  · have hcall : reading path w.offset? =
        ⟨.openFile, path, [("offset", Numeral.text w.start)], []⟩ := by
      rw [TailWindow.offset?, if_neg hstart]
      exact if_neg hstart
    rw [hcall] at h
    obtain ⟨q, hq, hdecode⟩ := decode_query_of_request (nodup_query (by simp) (by simp)) h
    rw [Request.offset?, hq, Option.getD_some, hdecode, TailWindow.offset?, if_neg hstart]
    rfl

theorem Serves.body [Client] {settings : Settings} {path address : String} {content : Bytes}
    {size : Int} {request : Request} {response : Response}
    (hrequest : (Call.reading path (TailWindow.ofFile content.length size).offset?).request
      settings = .ok (address, request))
    (h : Serves content request response) :
    response.body = content.rtake (min content.length size.toNat) := by
  have hoffset := Call.offset?_of_reading hrequest
  have hnonneg := TailWindow.start_nonneg content.length size
  rw [← TailWindow.drop_start]
  by_cases hstart : (TailWindow.ofFile content.length size).start = 0
  · rw [TailWindow.offset?, if_pos hstart] at hoffset
    rw [h.whole hoffset, hstart]
    rfl
  · rw [TailWindow.offset?, if_neg hstart, ← Int.toNat_of_nonneg hnonneg] at hoffset
    exact h.rest _ hoffset

namespace Session

variable {s : Session} {owner : Nat} {control : Option String} {d : Draft} {events : List Event}

/-- A content has come to the screen, and its owner has ended with it. -/
structure Shows (s t : Session) (owner : Nat) (text : String) : Prop where
  shown : t.console.screen.shown = some (.preview (.str text))
  written : t.console.screen.written = s.console.screen.written ++ [.page text]
  ended : t.ended = s.ended ++ [(owner, .answered (.content (.str text)))]

/-- What is read is shown, and a fault in the reading ends the owner. -/
inductive Reads (s t : Session) (owner : Nat) : Except Fault String → Prop
  | shown {text : String} (h : s.Shows t owner text) : Reads s t owner (.ok text)
  | raised {f : Fault} (h : s.EndsBy t owner (.aborted (.single f)) s.console.navigation) :
      Reads s t owner (.error f)

section

variable [Client]

/-! ## Runs -/

theorem isIdle_run (hnumbered : s.IsNumbered) (hidle : (s.share owner).IsIdle)
    (hnew : ∀ action, .start owner action ∉ events) : ((s.run events).share owner).IsIdle := by
  induction events generalizing s with
  | nil => exact hidle
  | cons e events ih =>
      have hmover : s.mover? e ≠ some owner := by
        intro hmover
        obtain ⟨number, r, rfl⟩ := mover?_eq_some hnew hmover
        exact mover?_ne_of_isIdle hidle number r hmover
      refine ih (isNumbered_step hnumbered e) ?_ fun action hmem =>
        hnew action (List.mem_cons_of_mem e hmem)
      rwa [share_step_of_ne hnumbered hmover]

theorem endsBy_reading (s : Session) (owner slot : Nat) (control : Option String) (o : Outcome) :
    ∃ e n, s.EndsBy (s.proceed owner (Activity.resume s.console ⟨control, .reading⟩ slot o))
      owner e n := by
  cases o with
  | ok content =>
      exact ⟨_, _, endsBy_finish s owner (s.console.showPage (.preview content)).1 control _⟩
  | error why =>
      exact ⟨_, _, endsBy_finish s owner (s.console.showError why.message) control (.ok .nothing)⟩

/-- Who reads goes on to wait for the content by the replies that it gets, or it has ended. -/
theorem reading_run (hnumbered : s.IsNumbered)
    (hawaits : (s.share owner).Awaits ⟨control, .reading⟩ d)
    (hnew : ∀ action, .start owner action ∉ events) :
    (∃ e, d.resolution ((s.deeds owner events).map (·.reply)) = .pending e ∧
      ((s.run events).share owner).Awaits ⟨control, .reading⟩ { d with exchange := e }) ∨
    ((s.run events).share owner).IsIdle := by
  induction events generalizing s d with
  | nil => exact .inl ⟨d.exchange, rfl, hawaits⟩
  | cons e events ih =>
      have hnumbered' := isNumbered_step hnumbered e
      have hnew' : ∀ action, .start owner action ∉ events := fun action hmem =>
        hnew action (List.mem_cons_of_mem e hmem)
      rw [deeds, run_cons]
      by_cases hmover : s.mover? e = some owner
      · obtain ⟨number, r, rfl⟩ := mover?_eq_some hnew hmover
        obtain ⟨hactivity, hpending, hstep⟩ := step_of_awaits hawaits hmover
        cases hreply : d.resolution [r] with
        | pending x =>
            simp only [hreply] at hstep
            have hawaits' := awaits_send hactivity hpending { d with exchange := x }
            rw [← hstep] at hawaits'
            have hdeed : (s.deed? owner (.reply number r)).toList.map (·.reply) = [r] := by
              simp [deed?, hmover]
            rw [List.map_append, hdeed, Draft.resolution_append hreply]
            exact ih hnumbered' hawaits' hnew'
        | returned o =>
            simp only [hreply] at hstep
            obtain ⟨_, _, hends⟩ := endsBy_reading (s.withdraw number) owner d.slot control o
            refine .inr (isIdle_run hnumbered' ?_ hnew')
            rw [hstep]
            exact hends.idle
        | raised f =>
            simp only [hreply] at hstep
            refine .inr (isIdle_run hnumbered' ?_ hnew')
            rw [hstep]
            exact (endsBy_abort (s.withdraw number) owner _ [f]).idle
      · rw [deed?_of_mover hmover]
        refine ih hnumbered' ?_ hnew'
        rwa [share_step_of_ne hnumbered hmover]

/-! ## Previews -/

theorem reads_of_response (hawaits : (s.share owner).Awaits ⟨none, .reading⟩ d) {number : Nat}
    {r : Reply} (hmover : s.mover? (.reply number r) = some owner) {response : Response}
    (hreply : d.resolution [r] = .ofRead (Outcome.ofResponse .openFile d.address response))
    (hsuccess : response.isSuccess = true) :
    s.Reads (s.step (.reply number r)) owner (Client.text response) := by
  obtain ⟨-, -, hstep⟩ := step_of_awaits hawaits hmover
  rw [Outcome.ofResponse_openFile hsuccess] at hreply
  cases htext : Client.text response with
  | ok text =>
      have hreturned : d.resolution [r] = .returned (.ok (.str text)) := by
        rw [hreply, htext]
        rfl
      have hpage : (Page.preview (.str text)).text = .ok text := rfl
      simp only [hreturned, Activity.resume, Activity.display,
        Console.showPage_of_text _ hpage] at hstep
      rw [hstep]
      exact .shown ⟨rfl, rfl, rfl⟩
  | error f =>
      have hraised : d.resolution [r] = .raised f := by
        rw [hreply, htext]
        rfl
      simp only [hraised] at hstep
      have hends := endsBy_abort (s.withdraw number) owner ⟨none, .reading⟩ [f]
      rw [hstep]
      exact .raised ⟨hends.sent, hends.ended, hends.idle, hends.navigation⟩

section Starting

variable {length : Int} {w : TailWindow}
  (hw : TailWindow.ofFile length s.console.settings.tailChunk = w)
include hw

theorem start_preview_of_fits (hfits : Numeral.Fits w.start) (owner : Nat) (path : String) :
    s.start owner (.preview path length) =
      s.wait owner ⟨none, .reading⟩ [.reading (Path.normalize path) w.offset?] := by
  simp only [start, Activity.begin, Activity.preview, hw, if_pos hfits]
  rfl

theorem endsBy_of_not_fits (hlong : ¬ Numeral.Fits w.start) (owner : Nat) (path : String) :
    s.EndsBy (s.start owner (.preview path length)) owner
      (.aborted (.single (.numeral (.tooLong none)))) s.console.navigation := by
  simp only [start, Activity.begin, Activity.preview, hw, if_neg hlong]
  exact endsBy_finish s owner s.console none _

theorem endsBy_of_address (hfits : Numeral.Fits w.start) {path : String} {why : UrlFault}
    (hrequest : (Call.reading (Path.normalize path) w.offset?).request s.console.settings =
      .error why) (owner : Nat) :
    s.EndsBy (s.start owner (.preview path length)) owner (.aborted (.single (.address why)))
      s.console.navigation := by
  rw [start_preview_of_fits hw hfits, wait_of_fault s hrequest]
  have hends := endsBy_abort (s.setActivity owner ⟨none, .reading⟩) owner ⟨none, .reading⟩
    [.address why]
  exact ⟨hends.sent, hends.ended, hends.idle, hends.navigation⟩

theorem asksBy_preview (hfits : Numeral.Fits w.start) {path address : String} {request : Request}
    (hrequest : (Call.reading (Path.normalize path) w.offset?).request s.console.settings =
      .ok (address, request)) (hpending : (s.share owner).pending = []) :
    s.AsksBy (s.start owner (.preview path length)) owner request ⟨none, .reading⟩
      ⟨0, .openFile, address, .start request⟩ s.console.navigation := by
  rw [start_preview_of_fits hw hfits, wait_of_request s hrequest, Call.operation_reading]
  have hactivity : (s.setActivity owner ⟨none, .reading⟩).activity? owner =
      some ⟨none, .reading⟩ := activity?_setActivity s owner _
  exact ⟨rfl, rfl, awaits_send hactivity hpending _, rfl⟩

end Starting

/-- A preview asks for a window that ends with the file, with an offset exactly when the window
begins behind the start of the file, and then the last bytes of the file are read and shown, as many
as the settings say.  The window lies in the file exactly when that is no negative number. -/
theorem preview_reads_tail (settings : Settings) (fragment : String) (before after : List Event)
    {owner : Nat} (path : String) (content : Bytes)
    (hidle : ((opening settings fragment).run before).activity? owner = none)
    (hnew : ∀ action, .start owner action ∉ after) :
    let window := TailWindow.ofFile content.length settings.tailChunk
    let call := Call.reading (Path.normalize path) window.offset?
    let s := (opening settings fragment).run before
    let t := s.step (.start owner (.preview path content.length))
    (window.stop = content.length ∧ 0 ≤ window.start ∧
      (window.start ≤ window.stop ↔ 0 ≤ settings.tailChunk)) ∧
    (¬ Numeral.Fits window.start →
      s.EndsBy t owner (.aborted (.single (.numeral (.tooLong none)))) s.console.navigation) ∧
    (Numeral.Fits window.start → ∀ why, call.request settings = .error why →
      s.EndsBy t owner (.aborted (.single (.address why))) s.console.navigation) ∧
    (Numeral.Fits window.start → ∀ address request,
      call.request settings = .ok (address, request) →
      s.AsksBy t owner request ⟨none, .reading⟩ ⟨0, .openFile, address, .start request⟩
        s.console.navigation ∧
      request.offset? = (if 0 < window.start then some (Numeral.text window.start) else none) ∧
      ∀ number reply response, (t.run after).mover? (.reply number reply) = some owner →
        (Exchange.start request).afterAll ((t.deeds owner after).map (·.reply) ++ [reply]) =
          .done response →
        Serves content request response →
        (t.run after).Reads ((t.run after).step (.reply number reply)) owner
          (Client.text { response with
            body := content.rtake (min content.length settings.tailChunk.toNat) })) := by
  intro window call s t
  have hnumbered : t.IsNumbered :=
    isNumbered_step (isNumbered_run (isNumbered_opening settings fragment) before) _
  have hsettings : s.console.settings = settings := settings_run (opening settings fragment) before
  have hattended : (s.share owner).IsAttended :=
    isAttended_run (isNumbered_opening settings fragment) (fun _ => rfl) before
  have ht : t = s.start owner (.preview path content.length) := step_start hidle _
  have hw : TailWindow.ofFile content.length s.console.settings.tailChunk = window := by
    rw [hsettings]
  have hnonneg : 0 ≤ window.start := TailWindow.start_nonneg content.length settings.tailChunk
  refine ⟨⟨rfl, hnonneg, TailWindow.start_le_stop_iff content.length _⟩, ?_, ?_, ?_⟩
  · intro hlong
    rw [ht]
    exact endsBy_of_not_fits hw hlong owner path
  · intro hfits why hrequest
    rw [← hsettings] at hrequest
    rw [ht]
    exact endsBy_of_address hw hfits hrequest owner
  · intro hfits address request hrequest
    have hasks : s.AsksBy t owner request ⟨none, .reading⟩ ⟨0, .openFile, address, .start request⟩
        s.console.navigation := by
      rw [ht]
      exact asksBy_preview hw hfits (hsettings ▸ hrequest) (hattended hidle)
    refine ⟨hasks, ?_, fun number reply response hmover hdone hserves => ?_⟩
    · rw [Call.offset?_of_reading hrequest, TailWindow.offset?]
      by_cases hstart : window.start = 0
      · simp [hstart]
      · have hpositive : 0 < window.start := by omega
        rw [if_neg hstart, if_pos hpositive, Option.map_some]
    · rcases reading_run hnumbered hasks.awaits hnew with ⟨e, hpending, hawaits⟩ | hended
      · have hreply : Draft.resolution ⟨0, .openFile, address, e⟩ [reply] =
            .ofRead (Outcome.ofResponse .openFile address response) := by
          rw [← Draft.resolution_append hpending]
          simp only [Draft.resolution, hdone, Draft.resolve]
        rw [← hserves.body hrequest]
        exact reads_of_response hawaits hmover hreply hserves.success
      · exact absurd hmover (mover?_ne_of_isIdle hended number reply)

end

attribute [local instance] Client.plain

theorem preview_reads_tail_of_moved :
    let settings := { Settings.default with gateway := "http://nn:9870", tailChunk := 2 }
    let content := Utf8.encode "hello"
    let address := "http://nn:9870/webhdfs/v1/f?op=OPEN&offset=3"
    let request : Request :=
      ⟨.get, ⟨"http", "", "nn", some 9870, "/webhdfs/v1/f", some "op=OPEN&offset=3", none⟩, []⟩
    let moved : Reply := .response ⟨307, "", [("Location", "http://dn:9864/f?offset=3")], []⟩
    let response : Response := ⟨200, "OK", [], Utf8.encode "lo"⟩
    let s := (opening settings "").run []
    let t := s.step (.start 0 (.preview "f" content.length))
    let after : List Event := [.start 1 (.navigate "/a" false), .reply 1 moved]
    s.activity? 0 = none ∧ (∀ action, .start 0 action ∉ after) ∧ Numeral.Fits 3 ∧
      (Call.reading "/f" (some 3)).request settings = .ok (address, request) ∧
      Serves content request response ∧ t.sent = [request] ∧
      (t.run after).Shows ((t.run after).step (.reply 3 (.response response))) 0 "lo" := by
  intro settings content address request moved response s t after
  have hidle : s.activity? 0 = none := by decide
  have hnew : ∀ action, .start 0 action ∉ after := by
    simp [after]
  have hfits : Numeral.Fits 3 := by decide +kernel
  have hrequest : (Call.reading "/f" (some 3)).request settings = .ok (address, request) := by
    decide +kernel
  have hoffset : request.offset? = some (Numeral.text (3 : Nat)) := by decide +kernel
  have hserves : Serves content request response := by
    refine ⟨by decide, fun hnone => ?_, fun k hk => ?_⟩
    · rw [hoffset] at hnone
      cases hnone
    · rw [hoffset] at hk
      obtain rfl := Numeral.text_natCast_inj (Option.some.inj hk)
      decide +kernel
  obtain ⟨-, -, -, hreads⟩ := preview_reads_tail settings "" [] after "f" content hidle hnew
  obtain ⟨hasks, -, hreads⟩ := hreads hfits address request hrequest
  have htail : Client.text { response with
      body := content.rtake (min content.length settings.tailChunk.toNat) } = .ok "lo" := by
    decide +kernel
  have hread := hreads 3 (.response response) response (by decide +kernel) (by decide +kernel)
    hserves
  rw [htail] at hread
  cases hread with
  | shown hshown => exact ⟨hidle, hnew, hfits, hrequest, hserves, hasks.sent, hshown⟩

/-- A negative size is loaded, and the window of an empty file begins behind the file. -/
theorem negative_size_reads_behind_file :
    let settings := { Settings.default with tailChunk := -5 }
    let window := TailWindow.ofFile 0 settings.tailChunk
    SettingsStore.load (some ⟨Utf8.encode "\x7b\"tail_chunk_size\": -5\x7d", 0o600⟩) none none =
        .ok settings ∧
      window.start = 5 ∧ window.stop = 0 ∧
      ((opening settings "").step (.start 0 (.preview "/f" 0))).sent.map (·.offset?) =
        [some "5"] := by
  decide +kernel

end Session

end HdfsBrowser
