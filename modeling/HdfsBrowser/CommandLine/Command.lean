import HdfsBrowser.CommandLine.Grammar

/-!
# Commands

What can be asked for on the command line.  Every command names the gateway
and the user if it likes; its own operands and switches follow.
-/

namespace HdfsBrowser.CommandLine

def programName : String := "hdfs-explorer"

inductive Verb where
  | ls
  | info
  | tail
  | mkdir
  | put
  | chmod
  | chown
  | setrep
  | config
  deriving DecidableEq, Repr

namespace Verb

def all : List Verb := [.ls, .info, .tail, .mkdir, .put, .chmod, .chown, .setrep, .config]

def name : Verb → String
  | .ls => "ls"
  | .info => "info"
  | .tail => "tail"
  | .mkdir => "mkdir"
  | .put => "put"
  | .chmod => "chmod"
  | .chown => "chown"
  | .setrep => "setrep"
  | .config => "config"

def ofName? (name : String) : Option Verb := all.find? (·.name == name)

def operands : Verb → List Operand
  | .ls => [⟨"path", .atMostOne⟩]
  | .info | .tail | .mkdir => [⟨"path", .one⟩]
  | .put => [⟨"directory", .one⟩, ⟨"files", .atLeastOne⟩]
  | .chmod => [⟨"permission", .one⟩, ⟨"path", .one⟩]
  | .chown => [⟨"owner", .one⟩, ⟨"path", .one⟩]
  | .setrep => [⟨"replication", .one⟩, ⟨"path", .one⟩]
  | .config => []

def ownSwitches : Verb → List Switch
  | .mkdir => [⟨["--permission"], .text⟩]
  | .config =>
    [⟨["--set-gateway-url"], .text⟩, ⟨["--set-prefix"], .text⟩, ⟨["--set-user"], .text⟩,
     ⟨["--set-timeout"], .number⟩]
  | _ => []

end Verb

def helpSwitch : Switch := ⟨["-h", "--help"], .help⟩

def sharedSwitches : List Switch :=
  [⟨["--gateway-url"], .text⟩, ⟨["--user"], .text⟩, ⟨["--debug"], .flag⟩]

def Verb.grammar (verb : Verb) : Grammar where
  program := programName ++ " " ++ verb.name
  switches := helpSwitch :: sharedSwitches ++ verb.ownSwitches
  operands := verb.operands

def grammar : Grammar := ⟨programName, [helpSwitch], [⟨"command", .everything⟩]⟩

structure SettingsChange where
  gateway : Option String
  service : Option String
  user : Option String
  timeout : Option Binary64
  deriving DecidableEq, Repr

/-- What is asked for.  A `--` in the place of a last operand divides and is no
argument, so that operand can stay empty. -/
inductive Command where
  | list (path : String)
  | info (path : String)
  | tail (path : String)
  | makeDirectory (path : String) (permission : Option String)
  | put (directory : String) (files : List String)
  | setPermission (permission : String) (path : Option String)
  | setOwner (owner : String) (path : Option String)
  | setReplication (count : String) (path : Option String)
  | configure (change : SettingsChange)
  deriving DecidableEq, Repr

structure Invocation where
  command : Command
  gateway : Option String
  user : Option String
  debug : Bool
  deriving DecidableEq, Repr

def Command.verb : Command → Verb
  | .list _ => .ls
  | .info _ => .info
  | .tail _ => .tail
  | .makeDirectory .. => .mkdir
  | .put .. => .put
  | .setPermission .. => .chmod
  | .setOwner .. => .chown
  | .setReplication .. => .setrep
  | .configure _ => .config

def Command.ofReading (verb : Verb) (r : Reading) : Command :=
  let operand (name : String) : String := (r.argument? name).getD ""
  match verb with
  | .ls => .list ((r.argument? "path").getD "/")
  | .info => .info (operand "path")
  | .tail => .tail (operand "path")
  | .mkdir => .makeDirectory (operand "path") (r.text? "--permission")
  | .put => .put (operand "directory") (r.arguments "files")
  | .chmod => .setPermission (operand "permission") (r.argument? "path")
  | .chown => .setOwner (operand "owner") (r.argument? "path")
  | .setrep => .setReplication (operand "replication") (r.argument? "path")
  | .config =>
    .configure ⟨r.text? "--set-gateway-url", r.text? "--set-prefix", r.text? "--set-user",
      r.number? "--set-timeout"⟩

def Invocation.parse (args : List String) : Except Stop Invocation := do
  let whole ← grammar.read args
  let words := whole.arguments "command"
  let name := words.headD ""
  match Verb.ofName? name with
  | none =>
    .error (.fault programName (.unknownChoice "command" name (Verb.all.map Verb.name)))
  | some verb =>
    let r ← verb.grammar.read words.tail
    match whole.extras ++ r.extras with
    | [] =>
      .ok {
        command := .ofReading verb r
        gateway := r.text? "--gateway-url"
        user := r.text? "--user"
        debug := r.hasFlag "--debug" }
    | texts => .error (.fault programName (.unrecognized texts))

def usageLine (program : String) (why : UsageFault) : String :=
  program ++ ": error: " ++ why.message

end HdfsBrowser.CommandLine
