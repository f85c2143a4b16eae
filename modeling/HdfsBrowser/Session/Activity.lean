import HdfsBrowser.Session.Change
import HdfsBrowser.Session.Console

/-!
# Activities

What a user sets going.  An activity begins with an action, asks for calls,
waits for their outcomes, and ends with an answer or with a fault that was
raised.  While it waits it holds its control, which is free again when it
ends, whatever the end.
-/

namespace HdfsBrowser

structure LocalFile where
  name : String
  content : Bytes
  deriving DecidableEq, Repr

inductive Action where
  | start
  | refresh
  | navigate (path : String) (force : Bool)
  | hashChanged (fragment : String)
  | setFragment (fragment : String)
  | select (path name : Option String)
  | openEntry (path kind : String)
  | showBlock (sheet : FileSheet) (index : Int)
  | preview (path : String) (length : Int)
  | tail (path : String)
  | change (change : Change) (control : Option String)
  | upload (directory : String) (files : List LocalFile) (control : Option String)
  | call (call : Call)
  | showError (message : Value)
  | clearError
  deriving DecidableEq, Repr

inductive Answer where
  | nothing
  | flag (b : Bool)
  | outcome (o : Outcome)
  | outcomes (os : List Outcome)
  | sheet (f : FileSheet)
  | content (v : Value)
  deriving DecidableEq, Repr

inductive Abort where
  | single (f : Fault)
  | group (fs : List Fault)
  deriving DecidableEq, Repr

inductive After where
  | report
  | entered
  | changed (outcome : Outcome)
  | uploaded (outcomes : List Outcome) (failure : Option Value)
  deriving DecidableEq, Repr

inductive Phase where
  | listing (fetch : Fetch) (after : After)
  | locating (path : String)
  /-- The status of a file whose blocks are known. -/
  | describing (path : String) (located : Value)
  | measuring (path : String)
  | reading
  | changing
  | calling
  /-- The outcomes that are known, and the message of the last failure. -/
  | uploading (outcomes : List (Option Outcome)) (failure : Option Value)
  deriving DecidableEq, Repr

structure Activity where
  control : Option String
  phase : Phase
  deriving DecidableEq, Repr

inductive Progress where
  | waiting (activity : Activity) (calls : List Call)
  | finished (answer : Answer)
  | aborted (why : Abort)
  deriving DecidableEq, Repr

namespace Activity

/-! ## Ends -/

def finish (c : Console) (control : Option String) (r : Except Fault Answer) :
    Console × Progress :=
  (c.enable control,
    match r with
    | .ok answer => .finished answer
    | .error f => .aborted (.single f))

def complain (c : Console) (control : Option String) (message : Value) (answer : Answer) :
    Console × Progress :=
  finish (c.showError message) control (.ok answer)

def display (c : Console) (control : Option String) (page : Page) (answer : Answer) :
    Console × Progress :=
  let (c, shown) := c.showPage page
  finish c control (shown.map fun _ => answer)

/-! ## Listings -/

def follow (c : Console) (control : Option String) (after : After) (m : Navigation × Move) :
    Console × Progress :=
  let c := { c with navigation := m.1 }
  match m.2 with
  | .fetch f => (c, .waiting ⟨control, .listing f after⟩ [.listing f.target])
  | .stay moved =>
    finish c control (.ok (if after = .entered then .nothing else .flag moved))

def conclude (c : Console) (control : Option String) (after : After) (moved : Bool) :
    Console × Progress :=
  match after with
  | .report => finish c control (.ok (.flag moved))
  | .entered => finish c control (.ok .nothing)
  | .changed outcome => finish c control (.ok (.outcome outcome))
  | .uploaded outcomes none => finish c control (.ok (.outcomes outcomes))
  | .uploaded outcomes (some message) => complain c control message (.outcomes outcomes)

def listed (c : Console) (control : Option String) (f : Fetch) (after : After) (o : Outcome) :
    Console × Progress :=
  let (navigation, r) := c.navigation.settle f o
  let c := { c with navigation }
  match r with
  | .ok moved => conclude c control after moved
  | .error why => finish c control (.error why)

/-! ## Files -/

def openFile (c : Console) (path : String) : Console × Progress :=
  let path := Path.normalize path
  (c.select (some path) (some (Path.baseName path)),
    .waiting ⟨none, .locating path⟩ [.blocks path])

def openEntry (c : Console) (path kind : String) : Console × Progress :=
  if kind = "DIRECTORY" then follow c none .entered (c.navigation.navigate path false)
  else if kind = "FILE" then openFile c path
  else finish c none (.error (.unknownEntryKind (Text.quoted kind)))

/-- The status of a file, which may be missing. -/
def statusOf : Outcome → Except Fault (Option Entry)
  | .ok payload => (Entry.ofStatus payload).map some
  | .error _ => .ok none

def sheetOf [Client] (settings : Settings) (path : String) (located : Value)
    (status : Option Entry) : Except Fault FileSheet := do
  let map ← BlockMap.ofPayload located
  let download ← (Call.downloadAddress settings path).mapError .address
  FileSheet.ofMap path download map status settings.tailChunk

def unreadable (path : String) (why : Fault) : String :=
  "Failed to read block locations of " ++ path ++ ": " ++ why.message

def described [Client] (c : Console) (control : Option String) (path : String) (located : Value)
    (o : Outcome) : Console × Progress :=
  match statusOf o with
  | .error why => finish c control (.error why)
  | .ok status =>
    match sheetOf c.settings path located status with
    | .ok sheet => display c control (.file sheet) (.sheet sheet)
    | .error why =>
      if why.isMalformed then complain c control (.str (unreadable path why)) .nothing
      else finish c control (.error why)

def showBlock (c : Console) (sheet : FileSheet) (index : Int) : Console × Progress :=
  match if index < 0 then none else sheet.menu[index.toNat]? with
  | some item => display c none (.block item) (.flag true)
  | none => finish c none (.ok (.flag false))

/-- Asks for the tail of a file; an offset with too many digits is not written. -/
def preview (c : Console) (path : String) (length : Int) : Console × Progress :=
  let window := TailWindow.ofFile length c.settings.tailChunk
  if Numeral.Fits window.start then
    (c, .waiting ⟨none, .reading⟩ [.reading (Path.normalize path) window.offset?])
  else finish c none (.error (.numeral (.tooLong none)))

def lengthOf (status : Value) : Except Fault Int := do
  (Value.member (← status.asObject) "length" (.int 0)).asInteger

def measured (c : Console) (control : Option String) (path : String) (o : Outcome) :
    Console × Progress :=
  match o with
  | .error why => complain c control why.message .nothing
  | .ok status =>
    match lengthOf status with
    | .ok length => preview c path length
    | .error why => finish c control (.error why)

/-! ## Changes -/

def change (c : Console) (ch : Change) (control : Option String) : Console × Progress :=
  let c := c.register control
  match ch.call with
  | .ok call => (c.disable control, .waiting ⟨control, .changing⟩ [call])
  | .error (.rejected why) =>
    (c.showError (.str why.message), .finished (.outcome (.error (.rejected why))))
  | .error f => (c, .aborted (.single f))

def changed (c : Console) (control : Option String) (o : Outcome) : Console × Progress :=
  match o with
  | .ok _ => follow c control (.changed o) c.navigation.refresh
  | .error why => complain c control why.message (.outcome o)

/-! ## Uploads -/

def isDelivered : Outcome → Bool
  | .ok _ => true
  | .error _ => false

/-- Goes on when all outcomes are known: a listing if anything was delivered. -/
def uploaded (c : Console) (control : Option String) (outcomes : List Outcome)
    (failure : Option Value) : Console × Progress :=
  if outcomes.any isDelivered then
    follow c control (.uploaded outcomes failure) c.navigation.refresh
  else conclude c control (.uploaded outcomes failure) false

def allKnown? : List (Option Outcome) → Option (List Outcome)
  | [] => some []
  | none :: _ => none
  | some o :: rest => (allKnown? rest).map (o :: ·)

def gather (c : Console) (control : Option String) (outcomes : List (Option Outcome))
    (failure : Option Value) (calls : List Call) : Console × Progress :=
  match allKnown? outcomes with
  | some all => uploaded c control all failure
  | none => (c, .waiting ⟨control, .uploading outcomes failure⟩ calls)

def upload (c : Console) (directory : String) (files : List LocalFile)
    (control : Option String) : Console × Progress :=
  let directory := Path.normalize directory
  gather ((c.register control).disable control) control (files.map fun _ => none) none
    (files.map fun f => .create (Path.child directory f.name) f.content)

def lastFailure (failure : Option Value) : Outcome → Option Value
  | .ok _ => failure
  | .error why => some why.message

/-! ## Steps -/

def begin (c : Console) : Action → Console × Progress
  | .start => follow c none .report c.navigation.start
  | .refresh => follow c none .report c.navigation.refresh
  | .navigate path force => follow c none .report (c.navigation.navigate path force)
  | .hashChanged fragment => follow c none .report (c.navigation.hashChanged fragment)
  | .setFragment fragment => finish (c.setFragment fragment) none (.ok .nothing)
  | .select path name => finish (c.select path name) none (.ok .nothing)
  | .openEntry path kind => openEntry c path kind
  | .showBlock sheet index => showBlock c sheet index
  | .preview path length => preview c path length
  | .tail path => (c, .waiting ⟨none, .measuring path⟩ [.status (Path.normalize path)])
  | .change ch control => change c ch control
  | .upload directory files control => upload c directory files control
  | .call call => (c, .waiting ⟨none, .calling⟩ [call])
  | .showError message => finish (c.showError message) none (.ok .nothing)
  | .clearError => finish c.clearError none (.ok .nothing)

def resume [Client] (c : Console) (a : Activity) (slot : Nat) (o : Outcome) : Console × Progress :=
  match a.phase with
  | .listing f after => listed c a.control f after o
  | .locating path =>
    match o with
    | .ok located =>
      (c, .waiting ⟨a.control, .describing path located⟩ [.status path])
    | .error why => complain c a.control why.message .nothing
  | .describing path located => described c a.control path located o
  | .measuring path => measured c a.control path o
  | .reading =>
    match o with
    | .ok content => display c a.control (.preview content) (.content content)
    | .error why => complain c a.control why.message .nothing
  | .changing => changed c a.control o
  | .calling => finish c a.control (.ok (.outcome o))
  | .uploading outcomes failure =>
    gather c a.control (outcomes.set slot (some o)) (lastFailure failure o) []

def abandon (c : Console) (a : Activity) (fs : List Fault) : Console × Abort :=
  (c.enable a.control,
    match a.phase, fs with
    | .uploading .., _ => .group fs
    | _, [f] => .single f
    | _, _ => .group fs)

end Activity

end HdfsBrowser
