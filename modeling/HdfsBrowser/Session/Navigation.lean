import HdfsBrowser.Gateway.Outcome
import HdfsBrowser.Session.Screen

/-!
# Navigation

Where the user is.  Listings that are on their way are not called off: each
one has a number, and the answer to an older one than the newest that was
settled is dropped, so that a slow answer never takes the place of a newer
one.  A listing is settled when it commits or fails.

The fragment of the address follows the directory.  A fragment that navigation
published itself is remembered, and its echo asks for nothing.
-/

namespace HdfsBrowser

inductive Status where
  | idle
  | loading
  | loaded
  | failed
  deriving DecidableEq, Repr

def Status.name : Status → String
  | .idle => "idle"
  | .loading => "loading"
  | .loaded => "loaded"
  | .failed => "failed"

structure Navigation where
  directory : String
  selectedPath : Option String
  selectedName : Option String
  status : Status
  /-- The number of the newest listing that was asked for. -/
  issued : Nat
  /-- The number of the newest listing that was shown. -/
  committed : Nat
  /-- The number of the newest listing that was shown or failed. -/
  settled : Nat
  /-- The fragment that was published and whose echo is still to come. -/
  published : Option String
  fragment : String
  screen : Screen
  deriving DecidableEq, Repr

structure Fetch where
  number : Nat
  target : String
  deriving DecidableEq, Repr

inductive Move where
  | stay (moved : Bool)
  | fetch (f : Fetch)
  deriving DecidableEq, Repr

namespace Navigation

def opening (fragment : String) : Navigation where
  directory := Path.root
  selectedPath := none
  selectedName := none
  status := .idle
  issued := 0
  committed := 0
  settled := 0
  published := none
  fragment
  screen := .blank

def isQuiet (n : Navigation) : Bool := n.settled == n.issued

def publish (n : Navigation) (directory : String) : Navigation :=
  if n.fragment = directory then n
  else { n with published := some directory, fragment := directory }

def setFragment (n : Navigation) (fragment : String) : Navigation := { n with fragment }

def select (n : Navigation) (path name : Option String) : Navigation :=
  { n with selectedPath := path, selectedName := name }

/-! ## Asking for listings -/

def issue (n : Navigation) (target : String) : Navigation × Move :=
  ({ n with issued := n.issued + 1, status := .loading }, .fetch ⟨n.issued + 1, target⟩)

/-- The directory is on the screen and will stay there. -/
def isAt (n : Navigation) (target : String) : Bool :=
  n.committed != 0 && n.isQuiet && target == n.directory

/-- Moves to a directory; the one that is on the screen is asked for again only by force. -/
def navigate (n : Navigation) (path : String) (force : Bool) : Navigation × Move :=
  let target := Path.normalize path
  if !force && n.isAt target then (n, .stay true) else n.issue target

def start (n : Navigation) : Navigation × Move :=
  let target := Path.normalize n.fragment
  let n := if n.fragment = "" then n.publish target else n
  n.navigate target true

def refresh (n : Navigation) : Navigation × Move := n.navigate n.directory true

def hashChanged (n : Navigation) (fragment : String) : Navigation × Move :=
  if n.published = some fragment then ({ n with published := none }, .stay false)
  else if n.isQuiet && Path.normalize fragment == n.directory then (n, .stay false)
  else { n with screen := n.screen.clearError }.navigate fragment false

/-! ## Answers -/

def fail (n : Navigation) (f : Fetch) (message : Value) : Navigation :=
  { n with
    settled := f.number
    status := if f.number = n.issued then .failed else n.status
    screen := n.screen.showError message }

/-- Enters the target of a listing, before the listing is shown. -/
def enter (n : Navigation) (f : Fetch) : Navigation :=
  publish
    { n with
      committed := f.number
      settled := f.number
      directory := f.target
      selectedPath := none
      selectedName := none
      status := if f.number = n.issued then .loaded else n.status
      screen := n.screen.clearError }
    f.target

def commit (n : Navigation) (f : Fetch) (l : Listing) : Navigation × Except Fault Bool :=
  let n := n.enter f
  let (screen, shown) := n.screen.showPage (.listing l)
  ({ n with screen }, shown.map fun _ => true)

def unreadable (target : String) (why : Fault) : String :=
  "Failed to read listing of " ++ target ++ ": " ++ why.message

def settle (n : Navigation) (f : Fetch) (o : Outcome) : Navigation × Except Fault Bool :=
  if f.number < n.settled then (n, .ok false)
  else
    match o with
    | .error why => (n.fail f why.message, .ok false)
    | .ok payload =>
      match Listing.ofPayload f.target payload with
      | .ok l => n.commit f l
      | .error why =>
        if why.isMalformed then (n.fail f (.str (unreadable f.target why)), .ok false)
        else (n, .error why)

end Navigation

end HdfsBrowser
