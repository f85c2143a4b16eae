import HdfsBrowser.Client
import HdfsBrowser.Gateway.Operation
import HdfsBrowser.Json.Reading

/-!
# Outcomes

What a call comes to: a value, or a failure with the message to show.  A
gateway that refuses a call says why in an envelope, and its message is passed
on as it came.
-/

namespace HdfsBrowser

inductive Failure where
  /-- There was no answer, or none that the gateway gave a reason with. -/
  | transport (message : String) (status : Option Int)
  | refused (message : Value) (status : Int) (exception className : Value)
  | rejected (why : Rejection)
  deriving DecidableEq, Repr

abbrev Outcome := Except Failure Value

def Outcome.decEq : (o p : Outcome) → Decidable (o = p)
  | .ok v, .ok w => if h : v = w then isTrue (by rw [h]) else isFalse (by simp [h])
  | .error f, .error g => if h : f = g then isTrue (by rw [h]) else isFalse (by simp [h])
  | .ok _, .error _ | .error _, .ok _ => isFalse (by simp)

instance : DecidableEq Outcome := Outcome.decEq

namespace Failure

def message : Failure → Value
  | .transport message _ => .str message
  | .refused message .. => message
  | .rejected why => .str why.message

def status? : Failure → Option Int
  | .transport _ status => status
  | .refused _ status .. => some status
  | .rejected _ => none

end Failure

/-! ## Messages -/

/-- The reason that the gateway gave, if the value is an envelope with one. -/
def refusal? (envelope : Value) : Option (List (String × Value)) :=
  match envelope.member? "RemoteException" with
  | some (.object body) => some body
  | _ => none

def statusMessage (status : Int) (address reason : String) : String :=
  if status = 401 then
    "Authentication failed when trying to open " ++ address ++ ": Unauthorized."
  else if status = 403 then
    "Permission denied when trying to open " ++ address ++ ": " ++ reason
  else if status = 404 then
    "Path does not exist on HDFS or WebHDFS is disabled. " ++
      "Please check your path or enable WebHDFS."
  else "Failed to retrieve data from " ++ address ++ ": " ++ reason

def classify (status : Int) (envelope : Value) (address reason : String) : Value :=
  let own := (refusal? envelope).bind (Value.lookup? "message")
  match own with
  | some message =>
    if message.truthy then message else .str (statusMessage status address reason)
  | none => .str (statusMessage status address reason)

def Failure.ofAnswer (status : Int) (envelope : Value) (address reason : String) : Failure :=
  match refusal? envelope with
  | some body =>
    .refused (classify status envelope address reason) status
      (Value.member body "exception" (.str "")) (Value.member body "javaClassName" (.str ""))
  | none => .transport (statusMessage status address reason) (some status)

/-! ## Outcomes of calls -/

def Outcome.unreachable (address reason : String) : Outcome :=
  .error (.transport ("Failed to retrieve data from " ++ address ++ ": " ++ reason) none)

def payloadOf (op : Operation) (address : String) (status : Int) (envelope : Value) : Outcome :=
  match op.payloadKey? with
  | none => .ok .null
  | some key =>
    match envelope.member? key with
    | some v => .ok v
    | none =>
      .error (.transport
        ("Failed to retrieve data from " ++ address ++ ": response has no " ++ key)
        (some status))

def Outcome.ofEnvelope (op : Operation) (address : String) (r : Response) (envelope : Value) :
    Outcome :=
  if !r.isSuccess then .error (.ofAnswer r.status envelope address r.reason)
  else if (refusal? envelope).isSome then .error (.ofAnswer r.status envelope address "")
  else payloadOf op address r.status envelope

variable [Client]

/-- The object in the body; null when the body is no JSON or holds something else. -/
def Response.envelope (r : Response) : Except Fault Value := do
  match ← Client.document? r with
  | some ⟨.object members, _⟩ => .ok (.object members)
  | _ => .ok .null

/-- What a response comes to; a body that the library cannot read is a fault. -/
def Outcome.ofResponse (op : Operation) (address : String) (r : Response) :
    Except Fault Outcome := do
  if r.isSuccess && op = .openFile then .ok (.ok (.str (← Client.text r)))
  else .ok (.ofEnvelope op address r (← r.envelope))

end HdfsBrowser
