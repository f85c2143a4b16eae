import HdfsBrowser.Http.Exchange
import HdfsBrowser.Proofs.Computation

/-!
# Chains of redirections

An exchange takes its replies one after the other until a turn ends it.  Each
reply that does not end it is a redirection and is counted, so that no exchange
waits for more than one reply beyond the limit.  What makes an exchange raise a
fault is listed here once, with all the conditions under which it does.
-/

namespace HdfsBrowser.Exchange

theorem mapError_eq_error {x : Except UrlFault Url} {f : Fault}
    (h : x.mapError .address = .error f) : ∃ why, f = .address why := by
  cases x with
  | ok u => cases h
  | error why => exact ⟨why, (Except.error.inj h).symm⟩

variable [Client]

def afterAll (e : Exchange) : List Reply → Turn
  | [] => .next e
  | r :: replies =>
    match e.receive r with
    | .next e' => e'.afterAll replies
    | turn => turn

/-! ## Faults of the next address -/

theorem shownHost_eq_error {u : Url} {f : Fault} (h : shownHost u = .error f) :
    Client.decodeHost u.host = .error f := by
  unfold shownHost at h
  split at h
  · exact h
  · cases h

theorem target_eq_error {current location : Url} {f : Fault}
    (h : target current location = .error f) :
    (∃ why, f = .address why) ∨ ∃ host, Client.decodeHost host = .error f := by
  simp only [target, bind_eq_error_iff] at h
  rcases h with h | ⟨u, -, h | ⟨v, -, h | ⟨w, -, h | ⟨_, -, h⟩⟩⟩⟩
  · unfold atHost at h
    split at h
    · cases h
    · rcases bind_eq_error_iff.mp h with h | ⟨host, -, h⟩
      · exact .inr ⟨_, shownHost_eq_error h⟩
      · split at h
        · rcases bind_eq_error_iff.mp h with h | ⟨_, -, h⟩
          · exact .inr ⟨_, shownHost_eq_error h⟩
          · exact .inl (mapError_eq_error h)
        · cases h
  · exact .inl (mapError_eq_error h)
  · exact .inl (mapError_eq_error h)
  · simp only [compareHosts, bind_eq_error_iff] at h
    rcases h with h | ⟨_, -, h | ⟨_, -, h⟩⟩
    · exact .inr ⟨_, shownHost_eq_error h⟩
    · exact .inr ⟨_, shownHost_eq_error h⟩
    · cases h
  · cases h

/-- The replies on which an exchange raises a fault. -/
inductive Breaks (e : Exchange) : Reply → Fault → Prop
  | unusable (f : Fault) : Breaks e (.broken f) f
  | schemeless (r : Response) (hscheme : e.request.address.scheme = "") :
      Breaks e (.response r) (.unknownScheme e.request.address.text)
  | unjoined {r : Response} {location : String} {u : Url} {f : Fault}
      (hscheme : e.request.address.scheme ≠ "") (hlocation : location? r = some location)
      (hparse : Url.parse location = .ok u) (htarget : target e.request.address u = .error f) :
      Breaks e (.response r) f
  | exhausted {r : Response} {location : String} {u address : Url}
      (hscheme : e.request.address.scheme ≠ "") (hlocation : location? r = some location)
      (hparse : Url.parse location = .ok u) (htarget : target e.request.address u = .ok address)
      (hlimit : maxRedirects ≤ e.followed) :
      Breaks e (.response r) (.redirects "Exceeded maximum allowed redirects.")

/-- What a fault can come from that an exchange raises on some replies. -/
inductive Origin (replies : List Reply) : Fault → Prop
  | address (why : UrlFault) : Origin replies (.address why)
  | scheme (address : String) : Origin replies (.unknownScheme address)
  | limit : Origin replies (.redirects "Exceeded maximum allowed redirects.")
  | reply {f : Fault} (hreply : .broken f ∈ replies) : Origin replies f
  | host {name : String} {f : Fault} (hhost : Client.decodeHost name = .error f) : Origin replies f

theorem Breaks.origin {e : Exchange} {r : Reply} {f : Fault} (h : e.Breaks r f)
    {replies : List Reply} (hr : r ∈ replies) : Origin replies f := by
  cases h with
  | unusable f => exact .reply hr
  | schemeless r hscheme => exact .scheme _
  | unjoined _ _ _ htarget =>
      rcases target_eq_error htarget with ⟨why, rfl⟩ | ⟨name, hhost⟩
      · exact .address why
      · exact .host hhost
  | exhausted => exact .limit

/-! ## One reply -/

theorem receive_response {e : Exchange} (hscheme : e.request.address.scheme ≠ "") (r : Response) :
    e.receive (.response r) =
      match location? r with
      | some location => e.follow r.status location
      | none => .done r := by
  unfold receive
  exact if_neg hscheme

theorem receive_of_final {e : Exchange} (hscheme : e.request.address.scheme ≠ "") {r : Response}
    (hfinal : location? r = none) : e.receive (.response r) = .done r := by
  rw [receive_response hscheme, hfinal]

theorem Breaks.receive {e : Exchange} {r : Reply} {f : Fault} (h : e.Breaks r f) :
    e.receive r = .raised f := by
  cases h with
  | unusable f => rfl
  | schemeless r hscheme => simp [Exchange.receive, hscheme]
  | unjoined hscheme hlocation hparse htarget =>
      simp [receive_response hscheme, hlocation, follow, hparse, htarget]
  | exhausted hscheme hlocation hparse htarget hlimit =>
      simp [receive_response hscheme, hlocation, follow, hparse, htarget, hlimit]

theorem receive_eq_done_iff {e : Exchange} {r : Reply} {response : Response} :
    e.receive r = .done response ↔
      r = .response response ∧ e.request.address.scheme ≠ "" ∧ location? response = none := by
  constructor
  · intro h
    cases r with
    | failure kind message => cases h
    | broken fault => cases h
    | response r =>
        by_cases hscheme : e.request.address.scheme = ""
        · simp [receive, hscheme] at h
        · rw [receive_response hscheme] at h
          split at h
          · simp only [follow] at h
            split at h
            · cases h
            · split at h
              · cases h
              · split at h <;> cases h
          · next hfinal =>
              cases h
              exact ⟨rfl, hscheme, hfinal⟩
  · rintro ⟨rfl, hscheme, hfinal⟩
    exact receive_of_final hscheme hfinal

theorem followed_of_receive {e e' : Exchange} {r : Reply} (h : e.receive r = .next e') :
    e'.followed = e.followed + 1 ∧ e.followed < maxRedirects := by
  cases r with
  | failure kind message => cases h
  | broken fault => cases h
  | response r =>
      simp only [receive] at h
      split at h
      · cases h
      · split at h
        · unfold follow at h
          split at h
          · cases h
          · split at h
            · cases h
            · split at h
              · cases h
              · next hlimit =>
                  cases h
                  exact ⟨rfl, Nat.lt_of_not_le hlimit⟩
        · cases h

/-! ## All replies -/

theorem afterAll_of_next {e e' : Exchange} {r : Reply} (h : e.receive r = .next e')
    (replies : List Reply) : e.afterAll (r :: replies) = e'.afterAll replies := by
  rw [afterAll, h]

theorem exists_of_afterAll_cons {e e' : Exchange} {r : Reply} {replies : List Reply}
    (h : e.afterAll (r :: replies) = .next e') :
    ∃ next, e.receive r = .next next ∧ next.afterAll replies = .next e' := by
  cases hreceive : e.receive r with
  | next next => exact ⟨next, rfl, afterAll_of_next hreceive replies ▸ h⟩
  | done response => simp [afterAll, hreceive] at h
  | failed reason => simp [afterAll, hreceive] at h
  | raised f => simp [afterAll, hreceive] at h

theorem afterAll_append {e e' : Exchange} {hops : List Reply} (h : e.afterAll hops = .next e')
    (replies : List Reply) : e.afterAll (hops ++ replies) = e'.afterAll replies := by
  induction hops generalizing e with
  | nil =>
      cases h
      rfl
  | cons r hops ih =>
      obtain ⟨next, hnext, hrest⟩ := exists_of_afterAll_cons h
      rw [List.cons_append, afterAll_of_next hnext, ih hrest]

/-- An exchange that is over ended at one of the replies, the first that did not redirect it. -/
theorem afterAll_eq_iff_of_end {e : Exchange} {replies : List Reply} {turn : Turn}
    (hend : ∀ e', turn ≠ .next e') :
    e.afterAll replies = turn ↔
      ∃ hops r rest e', replies = hops ++ r :: rest ∧ e.afterAll hops = .next e' ∧
        e'.receive r = turn := by
  constructor
  · intro h
    induction replies generalizing e with
    | nil => exact absurd h.symm (hend e)
    | cons r replies ih =>
        cases hreceive : e.receive r with
        | next next =>
            rw [afterAll_of_next hreceive] at h
            obtain ⟨hops, r', rest, e', rfl, hhops, hlast⟩ := ih h
            exact ⟨r :: hops, r', rest, e', rfl, (afterAll_of_next hreceive hops).trans hhops,
              hlast⟩
        | _ =>
            rw [afterAll, hreceive] at h
            exact ⟨[], r, replies, e, rfl, rfl, hreceive.trans h⟩
  · rintro ⟨hops, r, rest, e', rfl, hhops, hlast⟩
    rw [afterAll_append hhops, afterAll, hlast]
    cases turn with
    | next e => exact absurd rfl (hend e)
    | _ => rfl

end HdfsBrowser.Exchange
