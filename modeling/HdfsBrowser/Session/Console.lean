import HdfsBrowser.Session.Navigation
import HdfsBrowser.Settings.Basic

/-!
# The console

What the activities of a session share: the settings, the place of the user
with the screen, and the controls.  A control is disabled while a change that
was started with it is under way.
-/

namespace HdfsBrowser

structure Console where
  settings : Settings
  navigation : Navigation
  controls : List (String × Bool)
  deriving DecidableEq, Repr

namespace Console

def opening (settings : Settings) (fragment : String) : Console :=
  ⟨settings, .opening fragment, []⟩

def screen (c : Console) : Screen := c.navigation.screen

def setScreen (c : Console) (screen : Screen) : Console :=
  { c with navigation := { c.navigation with screen } }

def showError (c : Console) (message : Value) : Console := c.setScreen (c.screen.showError message)

def clearError (c : Console) : Console := c.setScreen c.screen.clearError

def showPage (c : Console) (page : Page) : Console × Except Fault Unit :=
  let (screen, shown) := c.screen.showPage page
  (c.setScreen screen, shown)

theorem showPage_of_text (c : Console) {page : Page} {text : String} (h : page.text = .ok text) :
    c.showPage page =
      (c.setScreen { c.screen with
        shown := some page, written := c.screen.written ++ [.page text] }, .ok ()) := by
  simp [showPage, Screen.showPage, h]

def select (c : Console) (path name : Option String) : Console :=
  { c with navigation := c.navigation.select path name }

def setFragment (c : Console) (fragment : String) : Console :=
  { c with navigation := c.navigation.setFragment fragment }

/-! ## Controls -/

def setControl (name : String) (enabled : Bool) : List (String × Bool) → List (String × Bool)
  | [] => [(name, enabled)]
  | (other, old) :: rest =>
    if other = name then (other, enabled) :: rest else (other, old) :: setControl name enabled rest

/-- Makes a control known, enabled at first. -/
def register (c : Console) (control : Option String) : Console :=
  match control with
  | none => c
  | some name =>
    if c.controls.any (·.1 == name) then c
    else { c with controls := c.controls ++ [(name, true)] }

def disable (c : Console) (control : Option String) : Console :=
  match control with
  | none => c
  | some name => { c with controls := setControl name false c.controls }

def enable (c : Console) (control : Option String) : Console :=
  match control with
  | none => c
  | some name => { c with controls := setControl name true c.controls }

end Console

end HdfsBrowser
