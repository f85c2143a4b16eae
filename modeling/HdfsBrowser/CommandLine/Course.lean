import HdfsBrowser.CommandLine.Command
import HdfsBrowser.CommandLine.LocalFiles
import HdfsBrowser.Session.Basic

/-!
# Courses of actions

A command is a list of actions, one after the other: each one starts when the
one before has ended.  A fault ends the whole course.
-/

namespace HdfsBrowser.CommandLine

structure Course where
  session : Session
  ahead : List Action
  deriving DecidableEq, Repr

namespace Course

def abortOf? (s : Session) : Option Abort :=
  s.ended.findSome? fun (_, e) =>
    match e with
    | .aborted why => some why
    | .answered _ => none

section Client

variable [Client]

def advance (s : Session) : List Action → Course
  | [] => ⟨s, []⟩
  | action :: rest =>
    if s.running.isEmpty && (abortOf? s).isNone then advance (s.start s.ended.length action) rest
    else ⟨s, action :: rest⟩

def waiting? (c : Course) : Option Request := c.session.pending.head?.map (·.draft.request)

def receive (c : Course) (r : Reply) : Course :=
  match c.session.oldest?.bind (c.session.answer? · r) with
  | none => c
  | some s => advance s c.ahead

def receiveAll (c : Course) (replies : List Reply) : Course := replies.foldl receive c

def callsOf : Action → Nat
  | .upload _ files _ => files.length + 1
  | _ => 2

def silence : Reply := .failure .connect "no reply"

/-- Follows actions to their end: the replies are given in order, and then nobody replies. -/
def run (s : Session) (actions : List Action) (replies : List Reply) : Course :=
  (advance s actions).receiveAll
    (replies ++ List.replicate (actions.foldr (callsOf · + ·) 0) silence)

end Client

end Course

/-! ## Actions of commands -/

def readFiles (read : String → Except LocalFault Bytes) :
    List String → Except String (List LocalFile)
  | [] => .ok []
  | path :: rest => do
    let content ← (read path).mapError fun f => f.message path
    .ok (⟨LocalPath.name path, content⟩ :: (← readFiles read rest))

def splitOwner (given : String) : String × String :=
  match Text.cutAtFirst ':' given.toList with
  | (owner, group) => (String.ofList owner, String.ofList (group.getD []))

def Command.actions (read : String → Except LocalFault Bytes) :
    Command → Except String (List Action)
  | .list path => .ok [.navigate path false]
  | .info path => .ok [.openEntry path "FILE"]
  | .tail path => .ok [.tail path]
  | .makeDirectory path permission =>
    let (parent, name) := Path.split (Path.normalize path)
    .ok [.navigate parent false,
      .change (.makeDirectory parent name (permission.map fun p => .bits (.str p))) none]
  | .put directory paths => do
    let files ← readFiles read paths
    .ok [.navigate directory false, .upload directory files none]
  | .setPermission permission path =>
    .ok [.change (.setPermission (Path.normalize (path.getD "")) (.bits (.str permission))) none]
  | .setOwner owner path =>
    let (owner, group) := splitOwner owner
    .ok [.change (.setOwner (Path.normalize (path.getD "")) (.str owner) (.str group)) none]
  | .setReplication count path =>
    .ok [.change (.setReplication (Path.normalize (path.getD "")) (.str count)) none]
  | .configure _ => .ok []

end HdfsBrowser.CommandLine
