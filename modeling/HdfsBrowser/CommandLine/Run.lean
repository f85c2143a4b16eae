import HdfsBrowser.CommandLine.Course
import HdfsBrowser.CommandLine.Terminal
import HdfsBrowser.Settings.Store

/-!
# Runs of the program

From the arguments to the report: what was printed, the requests, the settings
file afterwards, and the exit status.  The status is 0 unless an error message
is left on the screen, a local file cannot be read, or the usage is wrong.
-/

namespace HdfsBrowser.CommandLine

structure Surroundings where
  store : SettingsStore
  localFile : String → Except LocalFault Bytes
  settingsPath : String
  colorOutput : Bool
  colorErrors : Bool

inductive Exit where
  | status (code : Nat)
  | raised (why : Abort)
  deriving DecidableEq, Repr

structure Report where
  exit : Exit
  output : String
  errors : String
  requests : List Request
  store : SettingsStore
  deriving DecidableEq, Repr

namespace Report

def plain (exit : Exit) (output errors : String) (store : SettingsStore) : Report :=
  ⟨exit, output, errors, [], store⟩

def raised (f : Fault) (output : String) (store : SettingsStore) : Report :=
  plain (.raised (.single f)) output "" store

def ofStop (stop : Stop) (store : SettingsStore) : Report :=
  match stop with
  | .help program => plain (.status 0) ("usage: " ++ program ++ " [-h]\n") "" store
  | .fault program why => plain (.status 2) "" (usageLine program why ++ "\n") store

/-! ## Courses -/

def printed : List Output → String
  | [] => ""
  | .page text :: rest => text ++ "\n" ++ printed rest
  | .error _ :: rest => printed rest

def complaints (color : Bool) : List Output → String
  | [] => ""
  | .page _ :: rest => complaints color rest
  | .error message :: rest => red color message.text ++ "\n" ++ complaints color rest

def statusOf (s : Screen) : Nat := if s.message.truthy then 1 else 0

def ofCourse (w : Surroundings) (c : Course) : Report :=
  let screen := c.session.console.screen
  { exit := match Course.abortOf? c.session with
      | some why => .raised why
      | none => .status (statusOf screen)
    output := printed screen.written
    errors := complaints w.colorErrors screen.written
    requests := c.session.sent
    store := w.store }

/-! ## Settings -/

def settingsText (w : Surroundings) (s : Settings) (onDisk : Bool) : Except Fault String := do
  let dim := dim w.colorOutput
  let chunk ← (Numeral.write s.tailChunk).mapError .numeral
  .ok ("\n" ++ bold w.colorOutput "hdfs-explorer configuration" ++ "\n" ++
    "  " ++ dim "file:" ++ "        " ++ w.settingsPath ++
      (if onDisk then "" else dim " (not created)") ++ "\n" ++
    "  " ++ dim "gateway:" ++ "     " ++ s.gateway ++ s.service ++ "\n" ++
    "  " ++ dim "user:" ++ "        " ++ (if s.user = "" then dim "(none)" else s.user) ++ "\n" ++
    "  " ++ dim "timeout:" ++ "     " ++ Decimal.text s.timeout ++ "s\n" ++
    "  " ++ dim "tail chunk:" ++ "  " ++ chunk ++ " bytes\n\n")

def shownSettings (w : Surroundings) (store : SettingsStore) : Except Fault String := do
  let s ← store.load none none
  settingsText w s (← store.read).isSome

end Report

namespace SettingsChange

def members (c : SettingsChange) : List (String × Value) :=
  let text : Option String → Value
    | some s => .str s
    | none => .null
  let number : Option Binary64 → Value
    | some x => .float x
    | none => .null
  [(Settings.Key.gateway.name, text c.gateway), (Settings.Key.service.name, text c.service),
   (Settings.Key.user.name, text c.user), (Settings.Key.timeout.name, number c.timeout)]

def isEmpty (c : SettingsChange) : Bool := c.members.all (·.2 == .null)

end SettingsChange

def printSettings (w : Surroundings) (before : String) (store : SettingsStore) : Report :=
  match Report.shownSettings w store with
  | .ok text => .plain (.status 0) (before ++ text) "" store
  | .error f => .raised f before store

def configure (w : Surroundings) (c : SettingsChange) : Report :=
  if c.isEmpty then printSettings w "" w.store
  else
    match w.store.update c.members with
    | .error f => .raised f "" w.store
    | .ok (_, store) => printSettings w ("Config written to: " ++ w.settingsPath ++ "\n") store

/-! ## Runs -/

def openSession (w : Surroundings) (i : Invocation) : Except Fault Session :=
  (w.store.load i.gateway i.user).map (Session.opening · "")

/-- A course of actions to follow, or the report when there is none. -/
def prepare (w : Surroundings) (args : List String) : Except Report (Session × List Action) :=
  match Invocation.parse args with
  | .error stop => .error (.ofStop stop w.store)
  | .ok i =>
    match i.command with
    | .configure change => .error (configure w change)
    | command =>
      match command.actions w.localFile with
      | .error message => .error (.plain (.status 1) "" (message ++ "\n") w.store)
      | .ok actions =>
        match openSession w i with
        | .error f => .error (.raised f "" w.store)
        | .ok session => .ok (session, actions)

def run [Client] (w : Surroundings) (args : List String) (replies : List Reply) : Report :=
  match prepare w args with
  | .error report => report
  | .ok (session, actions) => .ofCourse w (Course.run session actions replies)

end HdfsBrowser.CommandLine
