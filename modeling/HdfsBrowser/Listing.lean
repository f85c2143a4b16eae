import HdfsBrowser.Entry
import HdfsBrowser.Path
import HdfsBrowser.Permission

/-!
# Listings

What is shown of a directory: its trail and a row for each entry, in the
gateway's order.
-/

namespace HdfsBrowser

structure Row where
  name : Value
  path : String
  isDirectory : Bool
  /-- The symbolic permission, with `+` when the entry has an access control list. -/
  permission : String
  owner : Value
  group : Value
  replication : Int
  length : Int
  modified : Int
  blockSize : Int
  deriving DecidableEq, Repr

structure Listing where
  directory : String
  trail : List Path.Crumb
  rows : List Row
  deriving DecidableEq, Repr

namespace Listing

/-- The path of an entry: that of the directory itself when the entry has no name. -/
def entryPath (directory : String) (name : Value) : Except Fault String :=
  if name.truthy then
    match name with
    | .str s => .ok (Path.child directory s)
    | v => .error (.notAppended v.kind)
  else .ok directory

def rowOf (directory : String) (e : Entry) : Except Fault Row := do
  let permission ← Permission.decode (.int e.permission) e.isDirectory
  let path ← entryPath directory e.name
  .ok {
    name := e.name
    path
    isDirectory := e.isDirectory
    permission := if e.hasAcl then permission ++ "+" else permission
    owner := e.owner
    group := e.group
    replication := e.replication
    length := e.length
    modified := e.modified
    blockSize := e.blockSize }

def ofEntries (directory : String) (entries : List Entry) : Except Fault Listing := do
  let directory := Path.normalize directory
  let rows ← entries.mapM (rowOf directory)
  .ok ⟨directory, Path.trail directory, rows⟩

def ofPayload (directory : String) (payload : Value) : Except Fault Listing := do
  ofEntries directory (← Entry.ofListing payload)

end Listing

end HdfsBrowser
