import HdfsBrowser.Text.Column
import HdfsBrowser.Text.Quoted
import HdfsBrowser.Text.Utf8

/-!
# Local files

The files that a command sends.  A path is shown and named without empty and
`.` segments; `..` stays, since it leads where the directories lead.
-/

namespace HdfsBrowser.CommandLine

inductive LocalFault where
  | missing
  | isDirectory
  | noDirectory
  | other (reason : String)
  deriving DecidableEq, Repr

def LocalFault.reason : LocalFault → String
  | .missing => "[Errno 2] No such file or directory"
  | .isDirectory => "[Errno 21] Is a directory"
  | .noDirectory => "[Errno 20] Not a directory"
  | .other reason => reason

namespace LocalPath

def segments (path : String) : List String :=
  ((Text.splitOnChar '/' path.toList).map String.ofList).filter fun s => s != "" && s != "."

/-- What an absolute path starts with: one slash, or exactly two. -/
def anchor (path : String) : String :=
  match path.toList with
  | '/' :: '/' :: '/' :: _ => "/"
  | '/' :: '/' :: _ => "//"
  | '/' :: _ => "/"
  | _ => ""

def shown (path : String) : String :=
  match anchor path ++ Text.joinWith "/" (segments path) with
  | "" => "."
  | s => s

def name (path : String) : String := (segments path).getLast?.getD ""

end LocalPath

def LocalFault.message (f : LocalFault) (path : String) : String :=
  "Cannot read " ++ path ++ ": " ++ f.reason ++ ": " ++ Text.quoted (LocalPath.shown path)

/-! ## Trees -/

structure LocalTree where
  files : List (List String × Bytes)
  directories : List (List String)
  deriving DecidableEq, Repr

namespace LocalTree

def ofNames (files : List (String × Bytes)) (directories : List String) : LocalTree :=
  ⟨files.map fun (name, content) => (LocalPath.segments name, content),
   directories.map LocalPath.segments⟩

def isDirectory (t : LocalTree) (place : List String) : Bool :=
  t.directories.any place.isPrefixOf ||
    t.files.any fun (file, _) => file != place && place.isPrefixOf file

/-- Follows segments from a place, which is `none` outside the working directory. -/
def walk (t : LocalTree) : Option (List String) → List String → Except LocalFault Bytes
  | _, [] => .error .isDirectory
  | place, s :: rest =>
    if s = ".." then
      match place with
      | some (p :: ps) => t.walk (some (p :: ps).dropLast) rest
      | _ => t.walk none rest
    else
      match place with
      | none => .error .missing
      | some place =>
        let here := place ++ [s]
        if t.isDirectory here then t.walk (some here) rest
        else
          match t.files.find? (·.1 == here) with
          | none => .error .missing
          | some (_, content) => if rest.isEmpty then .ok content else .error .noDirectory

def read (t : LocalTree) (path : String) : Except LocalFault Bytes :=
  t.walk (if LocalPath.anchor path = "" then some [] else none) (LocalPath.segments path)

end LocalTree

end HdfsBrowser.CommandLine
