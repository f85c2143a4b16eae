import HdfsBrowser.Client.Plain
import HdfsBrowser.Proofs.Gateway.Body
import HdfsBrowser.Proofs.Http.Redirection
import HdfsBrowser.Session.Basic
import Mathlib.Data.List.Basic

/-!
# What a call comes to

A call is one exchange: it returns an outcome, it raises a fault, or it still
waits for a reply.  A failure of the link always gives an outcome, and so does
a final response that can be read.  There is one after at most twenty-one
replies, unless the call breaks: its address cannot be read back, a reply is
unusable, an address has no scheme, a location cannot be joined to the address
that named it, the redirections do not end, or the body of the final response
cannot be read.
-/

namespace HdfsBrowser

section

variable [Client]

namespace Draft

def resolution (d : Draft) (replies : List Reply) : Resolution :=
  d.resolve (d.exchange.afterAll replies)

theorem resolve_eq_pending_iff {d : Draft} {turn : Turn} {e : Exchange} :
    d.resolve turn = .pending e ↔ turn = .next e := by
  cases turn with
  | done response =>
      simp only [resolve]
      cases Outcome.ofResponse d.operation d.address response <;> simp [Resolution.ofRead]
  | _ => simp [resolve]

theorem resolve_eq_value_iff {d : Draft} {turn : Turn} {v : Value} :
    d.resolve turn = .returned (.ok v) ↔ ∃ response, turn = .done response ∧
      Outcome.ofResponse d.operation d.address response = .ok (.ok v) := by
  cases turn with
  | done response =>
      simp only [resolve]
      cases hread : Outcome.ofResponse d.operation d.address response <;>
        simp [Resolution.ofRead, hread]
  | _ => simp [resolve, Outcome.unreachable]

theorem resolution_eq_pending_iff {d : Draft} {replies : List Reply} {e : Exchange} :
    d.resolution replies = .pending e ↔ d.exchange.afterAll replies = .next e :=
  resolve_eq_pending_iff

theorem resolution_append {d : Draft} {hops : List Reply} {e : Exchange}
    (h : d.resolution hops = .pending e) (replies : List Reply) :
    d.resolution (hops ++ replies) = { d with exchange := e }.resolution replies := by
  unfold resolution
  rw [Exchange.afterAll_append (resolution_eq_pending_iff.mp h)]
  rfl

theorem resolution_singleton (d : Draft) (r : Reply) :
    d.resolution [r] = d.resolve (d.exchange.receive r) := by
  unfold resolution
  simp only [Exchange.afterAll]
  cases d.exchange.receive r <;> rfl

end Draft

theorem Session.release_of_resolution {s : Session} {p : Pending} {a : Activity}
    (ha : s.activity? p.owner = some a) (r : Reply) :
    s.release p r =
      match p.draft.resolution [r] with
      | .pending e => s.send p.owner { p.draft with exchange := e }
      | .returned o => s.proceed p.owner (a.resume s.console p.draft.slot o)
      | .raised f => s.abort p.owner a [f] := by
  rw [Draft.resolution_singleton]
  cases hturn : p.draft.resolve (p.draft.exchange.receive r) with
  | _ => simp only [release, ha, hturn]

namespace Call

def resolution (settings : Settings) (c : Call) (replies : List Reply) : Resolution :=
  match Draft.ofCall settings 0 c with
  | .ok d => d.resolution replies
  | .error why => .raised (.address why)

/-- The faults that a call with an address raises on the replies of a list. -/
inductive Breaks (settings : Settings) (c : Call) (address : String) (replies : List Reply) :
    Fault → Prop
  | unaddressed {why : UrlFault} (hparse : Url.parse address = .error why) :
      Breaks settings c address replies (.address why)
  | exchange {hops rest : List Reply} {r : Reply} {e : Exchange} {f : Fault}
      (hreplies : replies = hops ++ r :: rest) (hpending : c.resolution settings hops = .pending e)
      (hbreaks : e.Breaks r f) : Breaks settings c address replies f
  | unreadable {hops rest : List Reply} {r : Response} {e : Exchange} {f : Fault}
      (hreplies : replies = hops ++ .response r :: rest)
      (hpending : c.resolution settings hops = .pending e)
      (hscheme : e.request.address.scheme ≠ "") (hfinal : Exchange.location? r = none)
      (hbody : r.IsUnreadable c.operation f) : Breaks settings c address replies f

variable {settings : Settings} {c : Call} {address : String}

theorem ofCall_of_address (h : c.address settings = .ok address) (slot : Nat) :
    Draft.ofCall settings slot c =
      (Url.parse address).map fun u =>
        ⟨slot, c.operation, address,
          .start ⟨if c.operation.isRead then .get else .put, Request.grounded u, c.content⟩⟩ := by
  simp only [Draft.ofCall, request, h, Request.make, bind, Except.bind]
  cases Url.parse address <;> rfl

theorem resolution_cases (h : c.address settings = .ok address) :
    (∃ why, Url.parse address = .error why ∧
      ∀ replies, c.resolution settings replies = .raised (.address why)) ∨
    ∃ (u : Url) (d : Draft) (request : Request), Url.parse address = .ok u ∧
      d.operation = c.operation ∧ d.address = address ∧ d.exchange = .start request ∧
      ∀ replies, c.resolution settings replies = d.resolution replies := by
  cases hparse : Url.parse address with
  | error why =>
      refine .inl ⟨why, rfl, fun replies => ?_⟩
      unfold resolution
      rw [ofCall_of_address h, hparse]
      rfl
  | ok u =>
      let request : Request :=
        ⟨if c.operation.isRead then .get else .put, Request.grounded u, c.content⟩
      refine .inr ⟨u, ⟨0, c.operation, address, .start request⟩, request, rfl, rfl, rfl, rfl,
        fun replies => ?_⟩
      unfold resolution
      rw [ofCall_of_address h, hparse]
      rfl

theorem Breaks.origin {replies : List Reply} {f : Fault}
    (h : c.Breaks settings address replies f) :
    Exchange.Origin replies f ∨ ∃ r, .response r ∈ replies ∧ r.IsUnreadable c.operation f := by
  cases h with
  | unaddressed => exact .inl (.address _)
  | exchange hreplies _ hbreaks => exact .inl (hbreaks.origin (by simp [hreplies]))
  | unreadable hreplies _ _ _ hbody => exact .inr ⟨_, by simp [hreplies], hbody⟩

theorem resolution_of_end (h : c.address settings = .ok address) {hops : List Reply} {e : Exchange}
    (hpending : c.resolution settings hops = .pending e) (r : Reply) (rest : List Reply) :
    (∀ reason, e.receive r = .failed reason →
      c.resolution settings (hops ++ r :: rest) = .returned (.unreachable address reason)) ∧
    (∀ response, e.receive r = .done response →
      c.resolution settings (hops ++ r :: rest) =
        .ofRead (Outcome.ofResponse c.operation address response)) := by
  rcases resolution_cases h with ⟨why, -, hraised⟩ | ⟨u, d, request, -, hop, haddress, -, hd⟩
  · simp [hraised] at hpending
  · rw [hd] at hpending
    simp only [hd, Draft.resolution_append hpending, ← hop, ← haddress]
    constructor
    · intro reason hfailed
      simp only [Draft.resolution, Exchange.afterAll, hfailed, Draft.resolve]
    · intro response hdone
      simp only [Draft.resolution, Exchange.afterAll, hdone, Draft.resolve]

end Call

end

namespace Call

attribute [local instance] Client.plain

end Call

end HdfsBrowser
