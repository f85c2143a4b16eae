import HdfsBrowser.Client.Plain
import HdfsBrowser.CommandLine.Run
import HdfsBrowser.Http.Wire
import Std.Async.DNS
import Std.Async.TCP

/-!
# The program

Reads the settings file and the local files, sends the requests of a run over
connections of their own, and prints the report.
-/

namespace HdfsBrowser.Program

open CommandLine

attribute [local instance] Client.plain

/-! ## The connection -/

partial def receiveAll (client : Std.Async.TCP.Socket.Client) (got : ByteArray) :
    Std.Async.Async ByteArray := do
  match ← client.recv? 65536 with
  | none => return got
  | some more => receiveAll client (got ++ more)

def portOf (u : Url) : UInt16 :=
  UInt16.ofNat ((u.port.getD ((Url.defaultPort? u.scheme).getD 80)).toNat)

def socketAddress (port : UInt16) : Std.Net.IPAddr → Std.Net.SocketAddress
  | .v4 addr => .v4 ⟨addr, port⟩
  | .v6 addr => .v6 ⟨addr, port⟩

def fetch (r : Request) : Std.Async.Async ByteArray := do
  let port := portOf r.address
  let found ← Std.Async.DNS.getAddrInfo r.address.host (toString port)
  match found[0]? with
  | none => throw (IO.userError "Name or service not known")
  | some addr =>
    let client ← Std.Async.TCP.Socket.Client.mk
    client.connect (socketAddress port addr)
    client.send (ByteArray.mk (Wire.requestBytes r).toArray)
    receiveAll client ByteArray.empty

/-- The reply to a request; only plain connections are made. -/
def replyTo (r : Request) : IO Reply := do
  if r.address.scheme != "http" then
    return .failure .unsupported
      ("Request URL has an unsupported protocol '" ++ r.address.scheme ++ "://'.")
  try
    let bytes ← (fetch r).block
    return Wire.reply bytes.toList
  catch e => return .failure .connect (toString e)

partial def follow (c : Course) : IO Course := do
  match c.waiting? with
  | none => return c
  | some r => follow (c.receive (← replyTo r))

/-! ## Files -/

def settingsDirectory : IO String := do
  let base ← match ← IO.getEnv "XDG_CONFIG_HOME" with
    | some base => pure base
    | none => pure ((← IO.getEnv "HOME").getD "" ++ "/.config")
  return base ++ "/hdfs-explorer"

def readStore (path : String) : IO SettingsStore := do
  try
    let content ← IO.FS.readBinFile path
    return some ⟨content.toList, SettingsStore.privateMode⟩
  catch _ => return none

/-- Writes the file under another name first, so that it is never there in part. -/
def writeStore (directory : String) (file : SettingsFile) : IO Unit := do
  IO.FS.createDirAll directory
  let scratch := directory ++ "/config.tmp"
  IO.FS.writeBinFile scratch (ByteArray.mk file.content.toArray)
  IO.setAccessRights scratch ⟨⟨true, true, false⟩, ⟨false, false, false⟩, ⟨false, false, false⟩⟩
  IO.FS.rename scratch (directory ++ "/config.json")

def localFault : IO.Error → LocalFault
  | .noFileOrDirectory .. => .missing
  | .inappropriateType .. => .isDirectory
  | .resourceExhausted .. => .isDirectory
  | e => .other (toString e)

def readLocal (path : String) : IO (Except LocalFault Bytes) := do
  try
    return .ok (← IO.FS.readBinFile path).toList
  catch e => return .error (localFault e)

def readLocals (args : List String) : IO (List (String × Except LocalFault Bytes)) := do
  match Invocation.parse args with
  | .ok ⟨.put _ paths, _, _, _⟩ => paths.mapM fun path => return (path, ← readLocal path)
  | _ => return []

/-! ## Runs -/

def surroundings (directory : String) (args : List String) : IO Surroundings := do
  let files ← readLocals args
  let noColor ← IO.getEnv "NO_COLOR"
  return {
    store := ← readStore (directory ++ "/config.json")
    localFile := fun path => ((files.find? (·.1 == path)).map (·.2)).getD (.error .missing)
    settingsPath := directory ++ "/config.json"
    colorOutput := usesColor noColor (← (← IO.getStdout).isTty)
    colorErrors := usesColor noColor (← (← IO.getStderr).isTty) }

def report (w : Surroundings) (args : List String) : IO Report := do
  match prepare w args with
  | .error r => return r
  | .ok (session, actions) => return .ofCourse w (← follow (Course.advance session actions))

def abortText : Abort → String
  | .single f => f.message
  | .group fs => Text.joinWith "\n" (fs.map Fault.message)

def run (args : List String) : IO UInt32 := do
  let directory ← settingsDirectory
  let w ← surroundings directory args
  let r ← report w args
  match r.store with
  | some file => if r.store != w.store then writeStore directory file
  | none => pure ()
  IO.print r.output
  IO.eprint r.errors
  match r.exit with
  | .status code => return UInt32.ofNat code
  | .raised why => do
    IO.eprintln (abortText why)
    return 1

end HdfsBrowser.Program

def main (args : List String) : IO UInt32 := HdfsBrowser.Program.run args
