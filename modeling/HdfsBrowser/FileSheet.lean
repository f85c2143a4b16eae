import HdfsBrowser.Entry
import HdfsBrowser.FileBlock
import HdfsBrowser.Path
import HdfsBrowser.Permission

/-!
# File sheets

What is shown of a file: where to download it, the menu of its blocks, the
window of its end that a preview shows, and its permissions when its status is
known.
-/

namespace HdfsBrowser

/-- The bytes from `start` up to `stop`. -/
structure TailWindow where
  start : Int
  stop : Int
  deriving DecidableEq, Repr

namespace TailWindow

def ofFile (length size : Int) : TailWindow := ⟨max 0 (length - size), length⟩

def offset? (w : TailWindow) : Option Int := if w.start = 0 then none else some w.start

end TailWindow

structure BlockItem where
  index : Nat
  label : String
  block : FileBlock
  deriving DecidableEq, Repr

structure FileSheet where
  path : String
  title : String
  download : String
  length : Int
  showsBlocks : Bool
  window : TailWindow
  menu : List BlockItem
  permissions : Option Permission.Flags
  status : Option Entry
  deriving DecidableEq, Repr

namespace FileSheet

def blockItem (index : Nat) (block : FileBlock) : BlockItem :=
  ⟨index, "Block " ++ Numeral.text index, block⟩

def menuFrom (index : Nat) : List FileBlock → List BlockItem
  | [] => []
  | b :: bs => blockItem index b :: menuFrom (index + 1) bs

/-- The menu of a file; an empty file has none. -/
def menuOf (map : BlockMap) : List BlockItem :=
  if map.fileLength = 0 then [] else menuFrom 0 map.blocks

def flagsOf : Option Entry → Except Fault (Option Permission.Flags)
  | none => .ok none
  | some e => (Permission.flagsOfBits (.int e.permission)).map some

def ofMap (path download : String) (map : BlockMap) (status : Option Entry) (chunk : Int) :
    Except Fault FileSheet := do
  let path := Path.normalize path
  let permissions ← flagsOf status
  .ok {
    path
    title := "File information - " ++ Path.baseName path
    download
    length := map.fileLength
    showsBlocks := map.fileLength != 0
    window := .ofFile map.fileLength chunk
    menu := menuOf map
    permissions
    status }

end FileSheet

end HdfsBrowser
