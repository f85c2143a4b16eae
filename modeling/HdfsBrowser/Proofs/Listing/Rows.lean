import HdfsBrowser.CommandLine.Course
import HdfsBrowser.Listing
import HdfsBrowser.Proofs.Computation
import HdfsBrowser.Proofs.Path.Child

/-!
# Rows

A listing has a row for each entry when the permission of each one decodes and
its name is text.  The path of a row belongs to the name in the directory: it is
selected with that name, the directory of that path is made at that path, and
no other name has it in any directory.
-/

namespace HdfsBrowser

open CommandLine

namespace Listing

variable {directory : String} {entries : List Entry} {l : Listing}

/-- What a row shows of an entry of a directory. -/
structure IsRowOf (directory : String) (e : Entry) (row : Row) : Prop where
  name : row.name = e.name
  isDirectory : row.isDirectory = e.isDirectory
  owner : row.owner = e.owner
  group : row.group = e.group
  replication : row.replication = e.replication
  length : row.length = e.length
  modified : row.modified = e.modified
  path : entryPath directory e.name = .ok row.path
  permission : ∃ symbolic, Permission.decode (.int e.permission) e.isDirectory = .ok symbolic ∧
    row.permission = if e.hasAcl then symbolic ++ "+" else symbolic

theorem isRowOf_of_rowOf {e : Entry} {row : Row} (h : rowOf directory e = .ok row) :
    IsRowOf directory e row := by
  unfold rowOf at h
  simp only [bind_eq_ok_iff] at h
  obtain ⟨symbolic, hsymbolic, path, hpath, hrow⟩ := h
  cases hrow
  exact ⟨rfl, rfl, rfl, rfl, rfl, rfl, rfl, hpath, symbolic, hsymbolic, rfl⟩

theorem exists_rowOf_iff {e : Entry} {name : String} (hname : e.name = .str name) :
    (∃ row, rowOf directory e = .ok row) ↔
      ∃ symbolic, Permission.decode (.int e.permission) e.isDirectory = .ok symbolic := by
  constructor
  · rintro ⟨row, hrow⟩
    obtain ⟨symbolic, hsymbolic, -⟩ := (isRowOf_of_rowOf hrow).permission
    exact ⟨symbolic, hsymbolic⟩
  · rintro ⟨symbolic, hsymbolic⟩
    have hpath : ∃ path, entryPath directory (.str name) = .ok path := by
      unfold entryPath
      split
      · exact ⟨_, rfl⟩
      · exact ⟨_, rfl⟩
    obtain ⟨path, hpath⟩ := hpath
    unfold rowOf
    simp only [hsymbolic, hname, hpath]
    exact ⟨_, rfl⟩

theorem ofEntries_eq_ok_iff : ofEntries directory entries = .ok l ↔
    ∃ rows, entries.mapM (rowOf (Path.normalize directory)) = .ok rows ∧
      ⟨Path.normalize directory, Path.trail (Path.normalize directory), rows⟩ = l := by
  unfold ofEntries
  simp only [bind_eq_ok_iff, Except.ok.injEq]

theorem exists_ofEntries_iff (hnames : ∀ e ∈ entries, ∃ name, e.name = .str name) :
    (∃ l, ofEntries directory entries = .ok l) ↔ ∀ e ∈ entries,
      ∃ symbolic, Permission.decode (.int e.permission) e.isDirectory = .ok symbolic := by
  have hrows : (∃ rows, entries.mapM (rowOf (Path.normalize directory)) = .ok rows) ↔
      ∀ e ∈ entries, ∃ symbolic,
        Permission.decode (.int e.permission) e.isDirectory = .ok symbolic := by
    rw [exists_mapM_eq_ok_iff]
    refine forall₂_congr fun e he => ?_
    obtain ⟨name, hname⟩ := hnames e he
    exact exists_rowOf_iff hname
  rw [← hrows]
  constructor
  · rintro ⟨l, hl⟩
    obtain ⟨rows, hmap, -⟩ := ofEntries_eq_ok_iff.mp hl
    exact ⟨rows, hmap⟩
  · rintro ⟨rows, hmap⟩
    exact ⟨_, ofEntries_eq_ok_iff.mpr ⟨rows, hmap, rfl⟩⟩

theorem forall₂_rows (h : ofEntries directory entries = .ok l) :
    List.Forall₂ (IsRowOf (Path.normalize directory)) entries l.rows := by
  obtain ⟨rows, hrows, rfl⟩ := ofEntries_eq_ok_iff.mp h
  exact (mapM_eq_ok_iff.mp hrows).imp fun _ _ => isRowOf_of_rowOf

theorem exists_isRowOf (h : ofEntries directory entries = .ok l) {row : Row}
    (hrow : row ∈ l.rows) : ∃ e ∈ entries, IsRowOf (Path.normalize directory) e row := by
  obtain ⟨rows, hrows, rfl⟩ := ofEntries_eq_ok_iff.mp h
  obtain ⟨e, hmem, he⟩ := exists_of_mem_mapM hrows hrow
  exact ⟨e, hmem, isRowOf_of_rowOf he⟩

theorem map_rows (h : ofEntries directory entries = .ok l) {α : Type} {shown : Row → α}
    {field : Entry → α}
    (hshown : ∀ e row, IsRowOf (Path.normalize directory) e row → shown row = field e) :
    l.rows.map shown = entries.map field := by
  rw [← List.forall₂_eq_eq_eq, List.forall₂_map_left_iff, List.forall₂_map_right_iff]
  exact (forall₂_rows h).flip.imp fun row e hrow => hshown e row hrow

/-! ## Paths of rows -/

theorem entryPath_of_isName {name : String} (h : Path.IsName name) (directory : String) :
    entryPath directory (.str name) = .ok (Path.child directory name) := by
  have hname : (Value.str name).truthy = true := by simpa [Value.truthy] using h.ne_empty
  rw [entryPath, if_pos hname]

/-- A path belongs to a name in a directory: it is normal, it is selected with that name, and it
is taken apart into them for the directory of that path, which is made at that path. -/
structure IsPathOf (path directory name : String) : Prop where
  child : path = Path.child (Path.normalize directory) name
  normal : Path.normalize path = path
  baseName : Path.baseName path = name
  selected : ∀ c : Console,
    let navigation := (Activity.begin c (.openEntry path "FILE")).1.navigation
    navigation.selectedPath = some path ∧ navigation.selectedName = some name
  taken : ∀ read permission, (Command.makeDirectory path permission).actions read =
    .ok [.navigate (Path.normalize directory) false,
      .change (.makeDirectory (Path.normalize directory) name
        (permission.map fun p => .bits (.str p))) none]
  made : ∀ permission, (Change.makeDirectory (Path.normalize directory) name permission).call =
    (permission.mapM Permission.Input.digits).map (Call.makeDirectory path)

theorem isPathOf_child {name : String} (h : Path.IsName name) (directory : String) :
    IsPathOf (Path.child (Path.normalize directory) name) directory name where
  child := rfl
  normal := Path.normalize_child h directory
  baseName := Path.baseName_child h directory
  selected := by
    intro c
    have hnormal := Path.normalize_child h directory
    have hbase := Path.baseName_child h directory
    simp only [Activity.begin, Activity.openEntry, Activity.openFile, hnormal, hbase]
    exact ⟨rfl, rfl⟩
  taken := by
    intro read permission
    simp only [Command.actions, Path.normalize_child h, Path.split_child h]
  made := by
    intro permission
    simp only [Change.call, Change.directoryCall, Path.trimSlashes_of_isName h, if_neg h.ne_empty,
      Path.normalize_normalize]
    cases permission with
    | none => rfl
    | some bits =>
        simp only [Option.mapM_some]
        cases bits.digits <;> rfl

/-- A row without a name has the path of the directory, and the path of a row with a name belongs
to that name in the directory. -/
def HasPath (directory : String) (row : Row) : Prop :=
  (row.name = .str "" → row.path = Path.normalize directory) ∧
    ∀ name, row.name = .str name → Path.IsName name → IsPathOf row.path directory name

theorem hasPath_of_isRowOf {e : Entry} {row : Row}
    (h : IsRowOf (Path.normalize directory) e row) : HasPath directory row := by
  have hpath := h.path
  rw [← h.name] at hpath
  constructor
  · intro hname
    rw [hname] at hpath
    exact (Except.ok.inj hpath).symm
  · intro name hname hisName
    rw [hname, entryPath_of_isName hisName] at hpath
    rw [← Except.ok.inj hpath]
    exact isPathOf_child hisName directory

theorem hasPath_of_mem (h : ofEntries directory entries = .ok l) :
    ∀ row ∈ l.rows, HasPath directory row := by
  intro row hrow
  obtain ⟨e, -, he⟩ := exists_isRowOf h hrow
  exact hasPath_of_isRowOf he

/-- A listing has a row for each entry, in order, as soon as their permissions decode.  The path
of each row belongs to its name, and to no other name in any other directory. -/
theorem rows_have_paths_of_names (directory : String) (entries : List Entry) :
    ((∀ e ∈ entries, ∃ name, e.name = .str name) →
      ((∃ l, ofEntries directory entries = .ok l) ↔ ∀ e ∈ entries,
        ∃ symbolic, Permission.decode (.int e.permission) e.isDirectory = .ok symbolic)) ∧
    ∀ l, ofEntries directory entries = .ok l →
      l.rows.map (·.name) = entries.map (·.name) ∧
      (∀ row ∈ l.rows, HasPath directory row) ∧
      ∀ directory' entries' l', ofEntries directory' entries' = .ok l' →
        ∀ row ∈ l.rows, ∀ row' ∈ l'.rows, ∀ name name', row.name = .str name →
          row'.name = .str name' → Path.IsName name → Path.IsName name' → row.path = row'.path →
            Path.normalize directory = Path.normalize directory' ∧ name = name' := by
  refine ⟨exists_ofEntries_iff, fun l hl =>
    ⟨map_rows hl fun _ _ h => h.name, hasPath_of_mem hl, ?_⟩⟩
  intro directory' entries' l' hl' row hrow row' hrow' name name' hname hname' h h' heq
  have hchild := ((hasPath_of_mem hl row hrow).2 name hname h).child
  have hchild' := ((hasPath_of_mem hl' row' hrow').2 name' hname' h').child
  exact Path.child_inj h h' (by rw [← hchild, ← hchild', heq])

theorem path_of_row_below_slashes :
    let e : Entry := ⟨.str "notes", false, 644, .str "ana", .str "staff", 3, 12, false, 0, 0⟩
    ∃ l, ofEntries "home//" [e] = .ok l ∧ ∀ row ∈ l.rows, IsPathOf row.path "home//" "notes" := by
  intro e
  obtain ⟨hlisted, hpaths⟩ := rows_have_paths_of_names "home//" [e]
  have hdecodes : ∃ symbolic, Permission.decode (.int 644) false = .ok symbolic :=
    ⟨"-rw-r--r--", by decide +kernel⟩
  obtain ⟨l, hl⟩ := (hlisted (by simp [e])).mpr (by simpa [e] using hdecodes)
  obtain ⟨hnames, hrows, -⟩ := hpaths l hl
  refine ⟨l, hl, fun row hrow => (hrows row hrow).2 "notes" ?_ ⟨by decide, by decide⟩⟩
  have hname : row.name ∈ l.rows.map (·.name) := List.mem_map_of_mem hrow
  rw [hnames] at hname
  exact List.mem_singleton.mp hname

end Listing

end HdfsBrowser
