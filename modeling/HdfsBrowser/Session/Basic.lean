import HdfsBrowser.Http.Exchange
import HdfsBrowser.Session.Activity

/-!
# Sessions

Any number of activities on one console.  Each request of an activity waits
until a reply releases it; the requests that arise together are numbered by
method, address and content.  A fault in one request ends its activity.  The
other requests of that activity stay open, and the replies to them are taken
and lost.
-/

namespace HdfsBrowser

structure Draft where
  slot : Nat
  operation : Operation
  address : String
  exchange : Exchange
  deriving DecidableEq, Repr

structure Pending where
  number : Nat
  owner : Nat
  draft : Draft
  deriving DecidableEq, Repr

inductive Ending where
  | answered (answer : Answer)
  | aborted (why : Abort)
  deriving DecidableEq, Repr

structure Session where
  console : Console
  running : List (Nat × Activity)
  pending : List Pending
  /-- The numbers of open requests whose activities have ended. -/
  abandoned : List Nat
  /-- All requests; the first one has number 1. -/
  sent : List Request
  ended : List (Nat × Ending)
  deriving DecidableEq, Repr

/-- What a request comes to: it goes on at another address, or the call is over. -/
inductive Resolution where
  | pending (e : Exchange)
  | returned (o : Outcome)
  | raised (f : Fault)
  deriving DecidableEq, Repr

def Resolution.ofRead : Except Fault Outcome → Resolution
  | .ok o => .returned o
  | .error f => .raised f

namespace Draft

def request (d : Draft) : Request := d.exchange.request

section Client

variable [Client]

def resolve (d : Draft) : Turn → Resolution
  | .next e => .pending e
  | .done response => .ofRead (Outcome.ofResponse d.operation d.address response)
  | .failed reason => .returned (.unreachable d.address reason)
  | .raised f => .raised f

def ofCall (settings : Settings) (slot : Nat) (call : Call) : Except UrlFault Draft := do
  let (address, request) ← call.request settings
  .ok ⟨slot, call.operation, address, .start request⟩

end Client

def precedes (d e : Draft) : Bool :=
  let key (d : Draft) := (d.request.method.name, d.request.address.text)
  if key d = key e then decide (d.request.body < e.request.body)
  else
    decide ((key d).1 < (key e).1) ||
      ((key d).1 == (key e).1 && decide ((key d).2 < (key e).2))

def insertSorted (d : Draft) : List Draft → List Draft
  | [] => [d]
  | e :: rest => if d.precedes e then d :: e :: rest else e :: insertSorted d rest

def sort (ds : List Draft) : List Draft :=
  ds.foldl (fun sorted d => insertSorted d sorted) []

def ofCalls [Client] (settings : Settings) (slot : Nat) : List Call → List Draft × List Fault
  | [] => ([], [])
  | call :: rest =>
    let (drafts, faults) := ofCalls settings (slot + 1) rest
    match ofCall settings slot call with
    | .ok d => (d :: drafts, faults)
    | .error why => (drafts, .address why :: faults)

end Draft

namespace Session

def opening (settings : Settings) (fragment : String) : Session :=
  ⟨.opening settings fragment, [], [], [], [], []⟩

/-! ## Requests -/

def send (s : Session) (owner : Nat) (d : Draft) : Session :=
  { s with
    sent := s.sent ++ [d.request]
    pending := s.pending ++ [⟨s.sent.length + 1, owner, d⟩] }

def sendAll (s : Session) (owner : Nat) (ds : List Draft) : Session :=
  ds.foldl (fun s d => s.send owner d) s

def withdraw (s : Session) (number : Nat) : Session :=
  { s with pending := s.pending.filter (·.number != number) }

/-! ## Activities -/

def activity? (s : Session) (owner : Nat) : Option Activity :=
  (s.running.find? (·.1 == owner)).map (·.2)

def setActivity (s : Session) (owner : Nat) (a : Activity) : Session :=
  { s with running := s.running.filter (·.1 != owner) ++ [(owner, a)] }

/-- Ends an activity; nobody waits any longer for the replies to its requests. -/
def close (s : Session) (owner : Nat) (e : Ending) : Session :=
  { s with
    running := s.running.filter (·.1 != owner)
    pending := s.pending.filter (·.owner != owner)
    abandoned := s.abandoned ++ (s.pending.filter (·.owner == owner)).map (·.number)
    ended := s.ended ++ [(owner, e)] }

def abort (s : Session) (owner : Nat) (a : Activity) (fs : List Fault) : Session :=
  let (console, why) := a.abandon s.console fs
  { s with console }.close owner (.aborted why)

section Client

variable [Client]

/-- Sends the requests of an activity that waits.  When an address is at fault
the activity ends; the requests that went out with it stay sent. -/
def wait (s : Session) (owner : Nat) (a : Activity) (calls : List Call) : Session :=
  let (drafts, faults) := Draft.ofCalls s.console.settings 0 calls
  let s := (s.setActivity owner a).sendAll owner (Draft.sort drafts)
  if faults.isEmpty then s else s.abort owner a faults

def proceed (s : Session) (owner : Nat) (r : Console × Progress) : Session :=
  let s := { s with console := r.1 }
  match r.2 with
  | .finished answer => s.close owner (.answered answer)
  | .aborted why => s.close owner (.aborted why)
  | .waiting a calls => s.wait owner a calls

/-! ## Steps -/

def start (s : Session) (owner : Nat) (action : Action) : Session :=
  s.proceed owner (Activity.begin s.console action)

def release (s : Session) (p : Pending) (r : Reply) : Session :=
  match s.activity? p.owner with
  | none => s
  | some a =>
    match p.draft.resolve (p.draft.exchange.receive r) with
    | .pending exchange => s.send p.owner { p.draft with exchange }
    | .returned o => s.proceed p.owner (a.resume s.console p.draft.slot o)
    | .raised f => s.abort p.owner a [f]

end Client

def pending? (s : Session) (number : Nat) : Option Pending :=
  s.pending.find? (·.number == number)

/-- The session after a reply; one that nobody waits for changes nothing else. -/
def answer? [Client] (s : Session) (number : Nat) (r : Reply) : Option Session :=
  match s.pending? number with
  | some p => some ((s.withdraw number).release p r)
  | none =>
    if number ∈ s.abandoned then some { s with abandoned := s.abandoned.filter (· != number) }
    else none

def oldest? (s : Session) : Option Nat := s.pending.head?.map (·.number)

def openNumbers (s : Session) : List Nat :=
  (s.pending.map (·.number) ++ s.abandoned).mergeSort

def ending? (s : Session) (owner : Nat) : Option Ending :=
  (s.ended.find? (·.1 == owner)).map (·.2)

end Session

end HdfsBrowser
