/-!
# Operations of the gateway

What may be asked of the gateway.  Operations that only read are sent with
GET, all others with PUT.
-/

namespace HdfsBrowser

inductive Operation where
  | fileStatus
  | listStatus
  | blockLocations
  | openFile
  | makeDirectory
  | create
  | setPermission
  | setOwner
  | setReplication
  deriving DecidableEq, Repr

namespace Operation

def all : List Operation :=
  [.fileStatus, .listStatus, .blockLocations, .openFile, .makeDirectory, .create,
   .setPermission, .setOwner, .setReplication]

def name : Operation → String
  | .fileStatus => "GETFILESTATUS"
  | .listStatus => "LISTSTATUS"
  | .blockLocations => "GET_BLOCK_LOCATIONS"
  | .openFile => "OPEN"
  | .makeDirectory => "MKDIRS"
  | .create => "CREATE"
  | .setPermission => "SETPERMISSION"
  | .setOwner => "SETOWNER"
  | .setReplication => "SETREPLICATION"

def ofName? (name : String) : Option Operation := all.find? (·.name == name)

def isRead : Operation → Bool
  | .fileStatus | .listStatus | .blockLocations | .openFile => true
  | _ => false

def payloadKey? : Operation → Option String
  | .fileStatus => some "FileStatus"
  | .listStatus => some "FileStatuses"
  | .blockLocations => some "LocatedBlocks"
  | .makeDirectory => some "boolean"
  | _ => none

end Operation

end HdfsBrowser
