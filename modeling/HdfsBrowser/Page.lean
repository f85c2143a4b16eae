import HdfsBrowser.FileSheet
import HdfsBrowser.Listing
import HdfsBrowser.Number.Amount
import HdfsBrowser.Number.Timestamp

/-!
# Pages

The texts of everything that can be shown.  A listing has a line for each row,
with the columns permission, owner, group, size, time and replication before
the name; the owners and groups are padded to the widest of them.
-/

namespace HdfsBrowser

inductive Page where
  | listing (l : Listing)
  | file (f : FileSheet)
  | block (b : BlockItem)
  | preview (content : Value)
  deriving DecidableEq, Repr

namespace Page

def name : Page → String
  | .listing _ => "explorer"
  | .file _ => "file-info"
  | .block _ => "block-info"
  | .preview _ => "file-preview"

/-! ## Listings -/

def number (n : Int) : Except Fault String := (Numeral.write n).mapError .numeral

/-- A value in a column: a list or an object has no place in one. -/
def column (width : Nat) (v : Value) : Except Fault String := do
  match v with
  | .list _ | .object _ => .error (.noColumn v.kind)
  | _ => .ok (Text.padRight width (← v.asText))

def widest (vs : List Value) : Except Fault Nat := do
  .ok ((← vs.mapM Value.size).foldl max 0)

def rowName (r : Row) : Except Fault String :=
  match r.name with
  | .str s => .ok (if r.isDirectory then s ++ "/" else s)
  | v => .error (.notExtended v.kind)

def row (ownerWidth groupWidth : Nat) (r : Row) : Except Fault String := do
  let name ← rowName r
  let replication ← if r.isDirectory then .ok "-" else number r.replication
  let size ← if r.isDirectory then .ok "-" else Amount.text r.length
  let owner ← column ownerWidth r.owner
  let group ← column groupWidth r.group
  let time ← Timestamp.text r.modified
  .ok (Text.padRight 11 r.permission ++ " " ++ owner ++ " " ++ group ++ " " ++
    Text.padLeft 10 size ++ " " ++ Text.padLeft 16 time ++ " " ++ Text.padLeft 3 replication ++
    "  " ++ name)

def header (l : Listing) : String :=
  String.ofList (Text.trimEndBy Text.isBlank
    ("/ " ++ Text.joinWith " / " ((l.trail.drop 1).map (·.name))).toList)

def listingLines (l : Listing) : Except Fault (List String) := do
  if l.rows.isEmpty then .ok [header l, "  (empty directory)"]
  else
    let ownerWidth ← widest (l.rows.map (·.owner))
    let groupWidth ← widest (l.rows.map (·.group))
    let rows ← l.rows.mapM (row ownerWidth groupWidth)
    .ok (header l :: rows)

/-! ## Files -/

def orDash (v : Value) : Except Fault String :=
  if v = .null then .ok "-" else v.asText

def blockLines (item : BlockItem) : Except Fault (List String) := do
  let b := item.block
  let id ← orDash b.id
  let pool ← if b.pool.truthy then b.pool.asText else .ok "-"
  let stamp ← orDash b.stamp
  let offset ← number b.offset
  let length ← number b.length
  let hosts ← b.hosts.mapM Value.asText
  .ok ([item.label ++ ":", "  Block ID: " ++ id, "  Block Pool ID: " ++ pool,
    "  Generation Stamp: " ++ stamp, "  Offset: " ++ offset, "  Size: " ++ length,
    "  Availability:"] ++ hosts.map ("    " ++ ·))

def statusLines : Option Entry → Except Fault (List String)
  | none => .ok []
  | some e => do
    let owner ← e.owner.asText
    let group ← e.group.asText
    let replication ← number e.replication
    .ok ["  Owner: " ++ owner ++ ":" ++ group ++ "  Replication: " ++ replication]

def fileLines (f : FileSheet) : Except Fault (List String) := do
  let length ← Amount.text f.length
  let status ← statusLines f.status
  let blocks ← if f.showsBlocks then f.menu.mapM blockLines else .ok []
  .ok ([f.title, "  Download: " ++ f.download, "  Length: " ++ length] ++ status ++
    blocks.flatten)

/-! ## All pages -/

def lines (page : Page) : Except Fault (List String) :=
  match page with
  | .listing l => listingLines l
  | .file f => fileLines f
  | .block b => blockLines b
  | .preview content => content.asText.map ([·])

def text (page : Page) : Except Fault String := (lines page).map (Text.joinWith "\n")

end Page

end HdfsBrowser
