import HdfsBrowser.Gateway.Outcome
import HdfsBrowser.Http.Message
import HdfsBrowser.Settings.Basic
import HdfsBrowser.Url.Form

/-!
# Calls

One operation on one path.  The address of a call is that of the gateway, the
path of the service and the path of the call, with a query of the operation,
its parameters in order, and the user when there is one.
-/

namespace HdfsBrowser

structure Call where
  operation : Operation
  path : String
  parameters : List (String × String)
  content : Bytes
  deriving DecidableEq, Repr

namespace Call

/-! ## The calls -/

def listing (path : String) : Call := ⟨.listStatus, path, [], []⟩

def status (path : String) : Call := ⟨.fileStatus, path, [], []⟩

def blocks (path : String) : Call := ⟨.blockLocations, path, [], []⟩

/-- Reading from an offset; zero is the start and is not sent. -/
def reading (path : String) (offset : Option Int) : Call :=
  match offset with
  | some n =>
    if n = 0 then ⟨.openFile, path, [], []⟩
    else ⟨.openFile, path, [("offset", Numeral.text n)], []⟩
  | none => ⟨.openFile, path, [], []⟩

theorem operation_reading (path : String) (offset : Option Int) :
    (reading path offset).operation = .openFile := by
  unfold reading
  split
  · split <;> rfl
  · rfl

def makeDirectory (path : String) (permission : Option String) : Call :=
  match permission with
  | some digits => ⟨.makeDirectory, path, [("permission", digits)], []⟩
  | none => ⟨.makeDirectory, path, [], []⟩

def create (path : String) (content : Bytes) : Call := ⟨.create, path, [], content⟩

def setPermission (path digits : String) : Call :=
  ⟨.setPermission, path, [("permission", digits)], []⟩

/-- An empty owner or group is left unchanged and not sent. -/
def setOwner (path owner group : String) : Call :=
  ⟨.setOwner, path, [("owner", owner), ("group", group)].filter (·.2 != ""), []⟩

def setReplication (path : String) (count : String) : Call :=
  ⟨.setReplication, path, [("replication", count)], []⟩

/-! ## Addresses -/

def query (settings : Settings) (c : Call) : List (String × String) :=
  ("op", c.operation.name) :: c.parameters ++
    (if settings.user = "" then [] else [("user.name", settings.user)])

def base (settings : Settings) (path : String) : String :=
  Text.dropTrailing '/' settings.gateway ++ settings.service ++ path

variable [Client]

def url (settings : Settings) (c : Call) : Except UrlFault Url :=
  Url.parseWithQuery (base settings c.path) (Form.query (c.query settings))

def address (settings : Settings) (c : Call) : Except UrlFault String :=
  (c.url settings).map Url.text

def downloadAddress (settings : Settings) (path : String) : Except UrlFault String :=
  (reading path none).address settings

def request (settings : Settings) (c : Call) : Except UrlFault (String × Request) := do
  let address ← c.address settings
  let method := if c.operation.isRead then .get else .put
  .ok (address, ← Request.make method address c.content)

end Call

end HdfsBrowser
