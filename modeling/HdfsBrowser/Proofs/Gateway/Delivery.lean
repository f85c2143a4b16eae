import HdfsBrowser.Proofs.Gateway.Fates
import HdfsBrowser.Proofs.Gateway.Query
import HdfsBrowser.Proofs.Gateway.Response

/-!
# What was delivered

A change is sent with PUT and with its content.  A redirection by 302 or 303
turns that into a GET without content, and every other one keeps it.  So a change
that has come to a value was delivered as it was meant exactly if no redirection
on its way had one of the two statuses; the value itself does not tell.
-/

namespace HdfsBrowser

/-! ## What redirections leave of a request -/

/-- The reply asks for the other address with another method and without the content. -/
def Reply.rewrites : Reply → Bool
  | .response r => r.status = 302 ∨ r.status = 303
  | _ => false

/-- The request is still the change that was meant, or by now only a question for an answer. -/
def Request.Carries (request : Request) (content : Bytes) : (rewritten : Bool) → Prop
  | false => request.method = .put ∧ request.body = content
  | true => request.method = .get ∧ request.body = []

section

variable [Client]

namespace Exchange

variable {e e' : Exchange}

theorem request_of_receive {r : Reply} (h : e.receive r = .next e') :
    ∃ response, r = .response response ∧
      e'.request.method = nextMethod response.status e.request.method ∧
      e'.request.body = nextBody response.status e.request := by
  cases r with
  | failure kind message => cases h
  | broken fault => cases h
  | response response =>
      refine ⟨response, rfl, ?_⟩
      by_cases hscheme : e.request.address.scheme = ""
      · simp [receive, hscheme] at h
      · rw [receive_response hscheme] at h
        split at h
        · unfold follow at h
          split at h
          · cases h
          · split at h
            · cases h
            · split at h
              · cases h
              · cases h
                exact ⟨rfl, rfl⟩
        · cases h

/-- A request that was rewritten remains so, whatever redirections follow. -/
theorem carries_receive {r : Reply} {content : Bytes} {rewritten : Bool}
    (hcarries : e.request.Carries content rewritten) (h : e.receive r = .next e') :
    e'.request.Carries content (rewritten || r.rewrites) := by
  obtain ⟨response, rfl, hmethod, hbody⟩ := request_of_receive h
  by_cases hstatus : response.status = 302 ∨ response.status = 303
  · have hrewrites : Reply.rewrites (.response response) = true := decide_eq_true hstatus
    rw [nextMethod, if_pos hstatus] at hmethod
    rw [nextBody, nextMethod, if_pos hstatus] at hbody
    rw [hrewrites, Bool.or_true]
    refine ⟨hmethod, ?_⟩
    cases rewritten with
    | false => simpa [hcarries.1] using hbody
    | true => simpa [hcarries.2] using hbody
  · have hkeeps : Reply.rewrites (.response response) = false := decide_eq_false hstatus
    rw [nextMethod, if_neg hstatus] at hmethod
    rw [nextBody, nextMethod, if_neg hstatus, if_pos rfl] at hbody
    rw [hkeeps, Bool.or_false]
    cases rewritten with
    | false => exact ⟨hmethod.trans hcarries.1, hbody.trans hcarries.2⟩
    | true => exact ⟨hmethod.trans hcarries.1, hbody.trans hcarries.2⟩

theorem carries_afterAll {hops : List Reply} {content : Bytes} {rewritten : Bool}
    (hcarries : e.request.Carries content rewritten) (h : e.afterAll hops = .next e') :
    e'.request.Carries content (rewritten || hops.any Reply.rewrites) := by
  induction hops generalizing e rewritten with
  | nil =>
      cases h
      simpa using hcarries
  | cons r hops ih =>
      obtain ⟨next, hnext, hrest⟩ := exists_of_afterAll_cons h
      rw [List.any_cons, ← Bool.or_assoc]
      exact ih (carries_receive hcarries hnext) hrest

end Exchange

/-! ## What a value tells -/

theorem isSuccess_of_ofResponse {op : Operation} {address : String} {r : Response} {v : Value}
    (h : Outcome.ofResponse op address r = .ok (.ok v)) : r.isSuccess = true := by
  have hgives := ((ofResponse_gives_or_tells op address r).1 v).mp h
  exact Response.isSuccess_iff.mpr hgives.1

namespace Call

variable {settings : Settings} {c : Call} {replies : List Reply} {v : Value}

theorem carries_of_ofCall {i : Nat} {d : Draft} (hchanges : c.operation.isRead = false)
    (h : Draft.ofCall settings i c = .ok d) : d.exchange.request.Carries c.content false := by
  obtain ⟨address, request, hrequest, rfl⟩ := exists_of_ofCall h
  obtain ⟨hmethod, hbody⟩ := shape_of_request hrequest
  rw [hchanges] at hmethod
  exact ⟨hmethod, hbody⟩

theorem exists_done_of_value (hok : c.resolution settings replies = .returned (.ok v)) :
    ∃ d response, Draft.ofCall settings 0 c = .ok d ∧
      d.exchange.afterAll replies = .done response ∧
      Outcome.ofResponse d.operation d.address response = .ok (.ok v) := by
  unfold resolution at hok
  cases hdraft : Draft.ofCall settings 0 c with
  | error why => simp [hdraft] at hok
  | ok d =>
      simp only [hdraft] at hok
      obtain ⟨response, hdone, hread⟩ := Draft.resolve_eq_value_iff.mp hok
      exact ⟨d, response, rfl, hdone, hread⟩

/-- A change that has come to a value was answered by a success.  The request that this one
answers is the change itself, with its content, exactly if nothing on the way has rewritten it. -/
theorem delivered_iff_not_rewritten (hchanges : c.operation.isRead = false)
    (hok : c.resolution settings replies = .returned (.ok v)) :
    ∃ hops response rest e, replies = hops ++ .response response :: rest ∧
      c.resolution settings hops = .pending e ∧ response.isSuccess = true ∧
      ((e.request.method = .put ∧ e.request.body = c.content) ↔
        hops.any Reply.rewrites = false) ∧
      (hops.any Reply.rewrites = true → e.request.method = .get ∧ e.request.body = []) := by
  obtain ⟨d, response, hdraft, hdone, hvalue⟩ := exists_done_of_value hok
  obtain ⟨hops, r, rest, e, hreplies, hnext, hlast⟩ :=
    (Exchange.afterAll_eq_iff_of_end (by simp)).mp hdone
  obtain ⟨rfl, -, -⟩ := Exchange.receive_eq_done_iff.mp hlast
  have hpending : c.resolution settings hops = .pending e := by
    rw [resolution_of_ofCall hdraft]
    exact Draft.resolution_eq_pending_iff.mpr hnext
  have hcarries := Exchange.carries_afterAll (carries_of_ofCall hchanges hdraft) hnext
  rw [Bool.false_or] at hcarries
  refine ⟨hops, response, rest, e, hreplies, hpending, isSuccess_of_ofResponse hvalue, ?_⟩
  cases hrewritten : hops.any Reply.rewrites with
  | false =>
      rw [hrewritten] at hcarries
      exact ⟨iff_of_true hcarries rfl, nofun⟩
  | true =>
      rw [hrewritten] at hcarries
      refine ⟨iff_of_false (fun hput => ?_) nofun, fun _ => hcarries⟩
      exact absurd (hput.1.symm.trans hcarries.1) (by decide)

end Call

end

namespace Call

attribute [local instance] Client.plain

theorem delivered_iff_not_rewritten_of_created :
    let settings := { Settings.default with gateway := "http://nn:9870" }
    let c := create "/d/f" [1, 2]
    let hop : Reply := .response
      ⟨307, "", [("Location", "http://dn:9864/webhdfs/v1/d/f?op=CREATE")], []⟩
    let replies : List Reply := [hop, .response ⟨201, "Created", [], []⟩]
    c.operation.isRead = false ∧ c.resolution settings replies = .returned (.ok .null) ∧
      ∃ hops response rest e, replies = hops ++ .response response :: rest ∧
        c.resolution settings hops = .pending e ∧ response.isSuccess = true ∧
        e.request.method = .put ∧ e.request.body = c.content := by
  intro settings c hop replies
  have hok : c.resolution settings replies = .returned (.ok .null) := by decide +kernel
  obtain ⟨hops, response, rest, e, hreplies, hpending, hsuccess, hdelivered, -⟩ :=
    delivered_iff_not_rewritten rfl hok
  have hkept : replies.any Reply.rewrites = false := by decide
  rw [hreplies, List.any_append, Bool.or_eq_false_iff] at hkept
  obtain ⟨hmethod, hbody⟩ := hdelivered.mpr hkept.1
  exact ⟨rfl, hok, hops, response, rest, e, hreplies, hpending, hsuccess, hmethod, hbody⟩

/-- The same redirection by 302: the success answers a request that has no content. -/
theorem found_redirection_delivers_nothing :
    let settings := { Settings.default with gateway := "http://nn:9870" }
    let c := create "/d/f" [1, 2]
    let hop : Reply := .response
      ⟨302, "", [("Location", "http://dn:9864/webhdfs/v1/d/f?op=CREATE")], []⟩
    c.resolution settings [hop, .response ⟨201, "Created", [], []⟩] = .returned (.ok .null) ∧
      ∃ u, c.resolution settings [hop] = .pending ⟨⟨.get, u, []⟩, 1⟩ := by
  intro settings c hop
  let u : Url := ⟨"http", "", "dn", some 9864, "/webhdfs/v1/d/f", some "op=CREATE", none⟩
  exact ⟨by decide +kernel, u, by decide +kernel⟩

end Call

end HdfsBrowser
