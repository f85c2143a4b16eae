import HdfsBrowser.Json.Reading

/-!
# Blocks of a file

Where the parts of a file lie.  The blocks of a file are ordered by offset;
blocks with one offset stay in the gateway's order.
-/

namespace HdfsBrowser

structure FileBlock where
  offset : Int
  length : Int
  hosts : List Value
  id : Value
  stamp : Value
  pool : Value
  deriving DecidableEq, Repr

namespace FileBlock

def hostOf (location : Value) : Except Fault Value := do
  let members ← location.asObject
  let name := Value.member members "hostName" .null
  .ok (if name.truthy then name else Value.member members "ipAddr" (.str ""))

def ofLocated (located : Value) : Except Fault FileBlock := do
  let members ← located.asObject
  let block := Value.member members "block" (.object [])
  let hosts ← (← (Value.member members "locations" (.list [])).items).mapM hostOf
  let offset ← (Value.member members "startOffset" (.int 0)).asInteger
  let fields ← block.asObject
  let length ← (Value.member fields "numBytes" (.int 0)).asInteger
  .ok {
    offset, length, hosts
    id := Value.member fields "blockId" .null
    stamp := Value.member fields "generationStamp" .null
    pool := Value.member fields "blockPoolId" (.str "") }

def insertByOffset (b : FileBlock) : List FileBlock → List FileBlock
  | [] => [b]
  | c :: rest => if b.offset < c.offset then b :: c :: rest else c :: insertByOffset b rest

/-- The blocks by offset; those with one offset keep their order. -/
def sortByOffset (blocks : List FileBlock) : List FileBlock :=
  blocks.foldl (fun sorted b => insertByOffset b sorted) []

end FileBlock

structure BlockMap where
  fileLength : Int
  blocks : List FileBlock
  deriving DecidableEq, Repr

def BlockMap.ofPayload (payload : Value) : Except Fault BlockMap := do
  let members ← payload.asObject
  let located ← (Value.member members "locatedBlocks" (.list [])).items
  let blocks ← located.mapM FileBlock.ofLocated
  let fileLength ← (Value.member members "fileLength" (.int 0)).asInteger
  .ok ⟨fileLength, FileBlock.sortByOffset blocks⟩

end HdfsBrowser
