import HdfsBrowser.Page

/-!
# The screen

What the user sees: at most one error message, and the page that was shown
last.  Everything that was ever written is kept in order.
-/

namespace HdfsBrowser

inductive Output where
  | page (text : String)
  | error (message : Value)
  deriving DecidableEq, Repr

structure Screen where
  message : Value
  shown : Option Page
  written : List Output
  deriving DecidableEq, Repr

namespace Screen

def blank : Screen := ⟨.null, none, []⟩

def showError (s : Screen) (message : Value) : Screen :=
  { s with message, written := s.written ++ [.error message] }

def clearError (s : Screen) : Screen := { s with message := .null }

/-- Shows a page; one whose text cannot be made still counts as shown. -/
def showPage (s : Screen) (page : Page) : Screen × Except Fault Unit :=
  let s := { s with shown := some page }
  match page.text with
  | .ok text => ({ s with written := s.written ++ [.page text] }, .ok ())
  | .error f => (s, .error f)

end Screen

end HdfsBrowser
