import HdfsBrowser.Text.Blank
import HdfsBrowser.Text.Column

/-!
# Paths

Absolute paths of the namespace.  A normal path begins with a slash and ends
with none, the root apart; repeated slashes and dots inside it are kept.  The
trail of a path leads from the root to it, one crumb for each segment.
-/

namespace HdfsBrowser.Path

def root : String := "/"

/-! ## Normal form -/

def rooted (cs : List Char) : List Char :=
  match cs with
  | '/' :: _ => cs
  | _ => '/' :: cs

def normalChars (cs : List Char) : List Char :=
  match Text.trimEndBy (· == '/') (rooted cs) with
  | [] => ['/']
  | trimmed => trimmed

def normalize (path : String) : String := String.ofList (normalChars path.toList)

/-! ## Joining and splitting -/

def stem (cs : List Char) : List Char :=
  if cs.getLast? = some '/' then cs.dropLast else cs

def child (directory name : String) : String :=
  String.ofList (stem directory.toList ++ '/' :: name.toList)

def lastSegment (cs : List Char) : List Char :=
  (cs.reverse.takeWhile (· != '/')).reverse

def parentChars (cs : List Char) : List Char :=
  ((cs.reverse.dropWhile (· != '/')).drop 1).reverse

def baseName (path : String) : String := String.ofList (lastSegment (normalChars path.toList))

/-- The directory of the normal path, with the root for the empty one, and its name in it. -/
def split (path : String) : String × String :=
  let cs := normalChars path.toList
  let parent := String.ofList (parentChars cs)
  (if parent = "" then root else parent, String.ofList (lastSegment cs))

def trimSlashes (name : String) : String :=
  String.ofList (Text.trimBy (· == '/') name.toList)

/-! ## Trails -/

structure Crumb where
  name : String
  path : String
  deriving DecidableEq, Repr

def segments (path : String) : List String :=
  ((Text.splitOnChar '/' (normalChars path.toList)).filter (!·.isEmpty)).map String.ofList

def crumbsBelow (above : String) : List String → List Crumb
  | [] => []
  | name :: rest =>
    let path := above ++ "/" ++ name
    ⟨name, path⟩ :: crumbsBelow path rest

def trail (directory : String) : List Crumb :=
  ⟨root, root⟩ :: crumbsBelow "" (segments directory)

end HdfsBrowser.Path
