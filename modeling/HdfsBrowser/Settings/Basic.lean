import HdfsBrowser.Json.Printer
import HdfsBrowser.Json.Reading

/-!
# Settings

Where the gateway is and how it is asked.  Settings are read from the members
of an object, one by one: a value that does not convert leaves the default.
-/

namespace HdfsBrowser

structure Settings where
  gateway : String
  service : String
  user : String
  timeout : Binary64
  tailChunk : Int
  deriving DecidableEq, Repr

namespace Settings

def defaultTimeout : Binary64 := .ofInt 30

def default : Settings where
  gateway := "http://localhost:9870"
  service := "/webhdfs/v1"
  user := ""
  timeout := defaultTimeout
  tailChunk := 32768

inductive Key where
  | gateway
  | service
  | user
  | timeout
  | tailChunk
  deriving DecidableEq, Repr

namespace Key

def all : List Key := [.gateway, .service, .user, .timeout, .tailChunk]

def name : Key → String
  | .gateway => "gateway_url"
  | .service => "prefix"
  | .user => "user_name"
  | .timeout => "timeout"
  | .tailChunk => "tail_chunk_size"

def ofName? (name : String) : Option Key := all.find? (·.name == name)

end Key

def set (s : Settings) (key : Key) (v : Value) : Except Fault Settings :=
  match key with
  | .gateway => v.asText.map fun text => { s with gateway := text }
  | .service => v.asText.map fun text => { s with service := text }
  | .user => v.asText.map fun text => { s with user := text }
  | .timeout => v.asFloat.map fun x => { s with timeout := x }
  | .tailChunk => v.asInteger.map fun n => { s with tailChunk := n }

/-- A fault that leaves a setting as it was, once the value has been written out to report it. -/
def isIgnored (f : Fault) : Bool := f.family == .value || f.family == .kind

def read (members : List (String × Value)) (s : Settings) (key : Key) :
    Except Fault Settings :=
  match Value.lookup? key.name members with
  | none => .ok s
  | some v =>
    match s.set key v with
    | .ok s => .ok s
    | .error f => if isIgnored f then v.asText.map fun _ => s else .error f

def ofMembers (members : List (String × Value)) : Except Fault Settings :=
  Key.all.foldlM (read members) default

def get (s : Settings) : Key → Value
  | .gateway => .str s.gateway
  | .service => .str s.service
  | .user => .str s.user
  | .timeout => .float s.timeout
  | .tailChunk => .int s.tailChunk

def toMembers (s : Settings) : List (String × Value) :=
  Key.all.map fun key => (key.name, s.get key)

def chosen (choice : Option String) (otherwise : String) : String :=
  match choice with
  | some s => if s = "" then otherwise else s
  | none => otherwise

end Settings

end HdfsBrowser
