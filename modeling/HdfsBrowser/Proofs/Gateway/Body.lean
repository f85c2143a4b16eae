import HdfsBrowser.Gateway.Outcome
import HdfsBrowser.Proofs.Computation

/-!
# Reading of bodies

Of a response that succeeds to a request for a file the text is read, and of
any other one the document.  The client library may raise a fault instead, and
then the response comes to nothing else.
-/

namespace HdfsBrowser

theorem Response.isSuccess_iff {r : Response} :
    r.isSuccess = true ↔ 200 ≤ r.status ∧ r.status ≤ 299 := by
  simp [isSuccess]

variable [Client]

namespace Response

/-- The body is an object with a value under a key. -/
def Holds (r : Response) (key : String) (v : Value) : Prop :=
  ∃ d members, Client.document? r = .ok (some d) ∧ d.value = .object members ∧
    Value.lookup? key members = some v

def Refuses (r : Response) (body : List (String × Value)) : Prop :=
  r.Holds "RemoteException" (.object body)

/-- The fault that the library raises when it reads the body for an operation. -/
inductive IsUnreadable (r : Response) : Operation → Fault → Prop
  | text {f : Fault} (hsuccess : r.isSuccess = true) (htext : Client.text r = .error f) :
      IsUnreadable r .openFile f
  | document {op : Operation} {f : Fault} (hop : r.isSuccess = false ∨ op ≠ .openFile)
      (hdocument : Client.document? r = .error f) : IsUnreadable r op f

variable {r : Response} {envelope : Value}

theorem envelope_eq_error_iff {f : Fault} :
    r.envelope = .error f ↔ Client.document? r = .error f := by
  unfold Response.envelope
  cases Client.document? r with
  | error fault => simp [bind, Except.bind]
  | ok d =>
      simp only [bind, Except.bind]
      split <;> simp

/-- What the object of a body has under a key is what the body holds under it. -/
theorem holds_iff (h : r.envelope = .ok envelope) {key : String} {v : Value} :
    r.Holds key v ↔ envelope.member? key = some v := by
  unfold Response.envelope at h
  unfold Holds
  cases hdocument : Client.document? r with
  | error f => simp [hdocument, bind, Except.bind] at h
  | ok d =>
      simp only [hdocument, bind, Except.bind] at h
      split at h
      · next members _ =>
          cases h
          constructor
          · rintro ⟨_, _, hd, hvalue, hlookup⟩
            cases hd
            cases hvalue
            exact hlookup
          · exact fun hmember => ⟨_, members, rfl, rfl, hmember⟩
      · next hother =>
          cases h
          constructor
          · rintro ⟨⟨_, hprint⟩, members, hd, hvalue, -⟩
            cases hd
            cases hvalue
            exact absurd rfl (hother members hprint)
          · intro hmember
            cases hmember

theorem refusal?_eq_some_iff (h : r.envelope = .ok envelope) {body : List (String × Value)} :
    refusal? envelope = some body ↔ r.Refuses body := by
  rw [Refuses, holds_iff h]
  unfold refusal?
  cases envelope.member? "RemoteException" with
  | none => simp
  | some v => cases v <;> simp

theorem refusal?_eq_none_iff (h : r.envelope = .ok envelope) :
    refusal? envelope = none ↔ ∀ body, ¬ r.Refuses body := by
  simp only [← refusal?_eq_some_iff h]
  cases refusal? envelope <;> simp

end Response

namespace Outcome

variable {r : Response} {op : Operation}

theorem ofResponse_openFile (h : r.isSuccess = true) (address : String) :
    ofResponse .openFile address r = (Client.text r).map fun text => .ok (.str text) := by
  unfold ofResponse
  rw [h]
  cases Client.text r <;> rfl

theorem ofResponse_of_document (h : r.isSuccess = false ∨ op ≠ .openFile) (address : String) :
    ofResponse op address r = r.envelope.map (ofEnvelope op address r) := by
  have hother : (r.isSuccess && decide (op = .openFile)) = false := by
    simpa [or_iff_not_imp_left] using h
  unfold ofResponse
  rw [hother]
  cases r.envelope <;> rfl

theorem ofResponse_eq_error_iff {address : String} {f : Fault} :
    ofResponse op address r = .error f ↔ r.IsUnreadable op f := by
  by_cases hread : r.isSuccess = true ∧ op = .openFile
  · obtain ⟨hsuccess, rfl⟩ := hread
    rw [ofResponse_openFile hsuccess, map_eq_error_iff]
    constructor
    · exact .text hsuccess
    · intro h
      cases h with
      | text _ htext => exact htext
      | document hop _ => simp [hsuccess] at hop
  · have hop : r.isSuccess = false ∨ op ≠ .openFile := by simpa using not_and_or.mp hread
    rw [ofResponse_of_document hop, map_eq_error_iff, Response.envelope_eq_error_iff]
    constructor
    · exact .document hop
    · intro h
      cases h with
      | text hsuccess _ => exact absurd ⟨hsuccess, rfl⟩ hread
      | document _ hdocument => exact hdocument

end Outcome

end HdfsBrowser
