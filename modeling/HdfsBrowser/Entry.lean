import HdfsBrowser.Json.Reading

/-!
# Entries of the namespace

A file or directory as the gateway describes it.  Name, owner and group are
passed on as they came; the permission keeps the gateway's octal digits.
-/

namespace HdfsBrowser

structure Entry where
  name : Value
  isDirectory : Bool
  permission : Int
  owner : Value
  group : Value
  replication : Int
  length : Int
  hasAcl : Bool
  modified : Int
  blockSize : Int
  deriving DecidableEq, Repr

namespace Entry

/-- The kind that a description names; all kinds but one are files. -/
def namesDirectory (kind : Value) : Bool := kind == .str "DIRECTORY"

def kindName (e : Entry) : String := if e.isDirectory then "DIRECTORY" else "FILE"

def ofStatus (status : Value) : Except Fault Entry := do
  let members ← status.asObject
  let permission ← (Value.member members "permission" (.str "0")).asInteger
  let replication ← (Value.member members "replication" (.int 0)).asInteger
  let length ← (Value.member members "length" (.int 0)).asInteger
  let modified ← (Value.member members "modificationTime" (.int 0)).asInteger
  let blockSize ← (Value.member members "blockSize" (.int 0)).asInteger
  .ok {
    name := Value.member members "pathSuffix" (.str "")
    isDirectory := namesDirectory (Value.member members "type" (.str "FILE"))
    permission, replication, length, modified, blockSize
    owner := Value.member members "owner" (.str "")
    group := Value.member members "group" (.str "")
    hasAcl := (Value.member members "aclBit" (.bool false)).truthy }

def ofListing (payload : Value) : Except Fault (List Entry) := do
  let members ← payload.asObject
  let statuses ← (Value.member members "FileStatus" (.list [])).items
  statuses.mapM ofStatus

end Entry

end HdfsBrowser
