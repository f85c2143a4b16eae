import HdfsBrowser.Gateway.Call
import HdfsBrowser.Path
import HdfsBrowser.Permission

/-!
# Changes

What a user may change in the namespace.  The input of a change is checked
before anything is sent; a change that passes is one call.
-/

namespace HdfsBrowser

inductive Change where
  | makeDirectory (parent name : String) (permission : Option Permission.Input)
  | setPermission (path : String) (bits : Permission.Input)
  | setOwner (path : String) (owner group : Value)
  | setReplication (path : String) (count : Value)
  deriving DecidableEq, Repr

namespace Change

def directoryCall (parent name : String) (permission : Option Permission.Input) :
    Except Fault Call := do
  let name := Path.trimSlashes name
  if name = "" then .error (.rejected .emptyName)
  else
    match permission with
    | none => .ok (.makeDirectory (Path.child (Path.normalize parent) name) none)
    | some bits =>
      let digits ← bits.digits
      .ok (.makeDirectory (Path.child (Path.normalize parent) name) (some digits))

def permissionCall (path : String) (bits : Permission.Input) : Except Fault Call :=
  bits.digits.map (Call.setPermission path)

def ownerName : Value → Except Fault String
  | .str s => .ok (Text.strip s)
  | v => .error (.noMethod v.kind "strip")

def ownerCall (path : String) (owner group : Value) : Except Fault Call := do
  let owner ← ownerName owner
  let group ← ownerName group
  if owner = "" ∧ group = "" then .error (.rejected .noOwner)
  else .ok (.setOwner path owner group)

def replicationRejected (count : Value) : Except Fault Call := do
  .error (.rejected (.replication (← count.asText)))

def replicationCall (path : String) (count : Value) : Except Fault Call :=
  match count.asInteger with
  | .ok n =>
    if n < 1 then replicationRejected count
    else ((Numeral.write n).mapError .numeral).map (Call.setReplication path)
  | .error f =>
    if f.family = .value ∨ f.family = .kind then replicationRejected count else .error f

def call : Change → Except Fault Call
  | makeDirectory parent name permission => directoryCall parent name permission
  | setPermission path bits => permissionCall path bits
  | setOwner path owner group => ownerCall path owner group
  | setReplication path count => replicationCall path count

end Change

end HdfsBrowser
