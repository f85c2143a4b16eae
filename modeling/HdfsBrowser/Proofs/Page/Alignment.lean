import HdfsBrowser.Proofs.FileSheet.Status
import HdfsBrowser.Proofs.Listing.Rows
import HdfsBrowser.Proofs.Page.Characters
import HdfsBrowser.Proofs.Page.Listing
import HdfsBrowser.Proofs.Path.Trail
import HdfsBrowser.Proofs.Text.Splitting
import Mathlib.Order.Bounds.Defs

/-!
# Lines and columns of a listing

The text of a listing has a line for each entry after its header, and the
entries stand in their order.  The permission, the owner and the group of every
entry begin in the same columns on all lines, as the widths of the columns are
those of the longest owner and the longest group, and the name ends the line.
What breaks a line is left open: it is the end of a line, and nothing that is
printable ASCII.
-/

namespace HdfsBrowser

/-! ## Lines -/

namespace Text

variable {isBreak : Char → Bool} {s t : String}

def IsLine (isBreak : Char → Bool) (s : String) : Prop := ∀ c ∈ s.toList, isBreak c = false

instance : Decidable (IsLine isBreak s) :=
  List.decidableBAll (isBreak · = false) s.toList

@[simp] theorem isLine_append :
    IsLine isBreak (s ++ t) ↔ IsLine isBreak s ∧ IsLine isBreak t := by
  rw [IsLine, String.toList_append, List.forall_mem_append]
  rfl

theorem mem_joinWith {separator : String} {parts : List String} {c : Char}
    (h : c ∈ (joinWith separator parts).toList) :
    c ∈ separator.toList ∨ ∃ part ∈ parts, c ∈ part.toList := by
  induction parts with
  | nil => simp [joinWith] at h
  | cons part rest ih =>
      cases rest with
      | nil => exact .inr ⟨part, List.mem_cons_self, h⟩
      | cons next rest =>
          rw [joinWith, String.toList_append, String.toList_append, List.mem_append,
            List.mem_append] at h
          rcases h with (hpart | hseparator) | hrest
          · exact .inr ⟨part, List.mem_cons_self, hpart⟩
          · exact .inl hseparator
          · exact (ih hrest).imp_right fun ⟨other, hmem, hc⟩ =>
              ⟨other, List.mem_cons_of_mem part hmem, hc⟩

theorem splitOnP_joinWith (hbreak : isBreak '\n' = true) {lines : List String} (hne : lines ≠ [])
    (hlines : ∀ line ∈ lines, IsLine isBreak line) :
    (joinWith "\n" lines).toList.splitOnP isBreak = lines.map String.toList := by
  induction lines with
  | nil => exact absurd rfl hne
  | cons line rest ih =>
      have hline : IsLine isBreak line := hlines line List.mem_cons_self
      cases rest with
      | nil => exact List.splitOnP_eq_singleton hline
      | cons next rest =>
          have hnewline : "\n".toList = ['\n'] := rfl
          rw [joinWith, String.toList_append, String.toList_append, hnewline, List.append_assoc,
            List.singleton_append, List.splitOnP_append_cons_of_forall_mem hline '\n' hbreak,
            ih (List.cons_ne_nil _ _) fun other hmem => hlines other (List.mem_cons_of_mem _ hmem)]
          rfl

/-! ## Columns -/

def columns (start width : Nat) (line : String) : String :=
  String.ofList ((line.toList.drop start).take width)

theorem columns_append (before cell after : String) :
    columns before.length cell.length (before ++ cell ++ after) = cell := by
  simp only [columns, String.toList_append, ← String.length_toList, List.append_assoc,
    List.drop_left, List.take_left, String.ofList_toList]

theorem length_padRight {width : Nat} (h : s.length ≤ width) :
    (padRight width s).length = width := by
  rw [padRight, String.length_append, String.length_ofList, List.length_replicate]
  omega

section Plain

variable (hplain : ∀ c, isPlain c = true → isBreak c = false)
include hplain

theorem isLine_of_allPlain (h : AllPlain s.toList) : IsLine isBreak s := fun c hc =>
  hplain c (h c hc)

theorem isLine_blanks (n : Nat) : IsLine isBreak (String.ofList (List.replicate n ' ')) :=
  isLine_of_allPlain hplain (by
    rw [String.toList_ofList]
    exact allPlain_replicate n (by decide))

theorem isLine_padRight (width : Nat) (h : IsLine isBreak s) :
    IsLine isBreak (padRight width s) := isLine_append.mpr ⟨h, isLine_blanks hplain _⟩

theorem isLine_padLeft (width : Nat) (h : IsLine isBreak s) :
    IsLine isBreak (padLeft width s) := isLine_append.mpr ⟨isLine_blanks hplain _, h⟩

end Plain

end Text

open Text

/-! ## Entries on lines -/

structure Entry.IsInline (isBreak : Char → Bool) (e : Entry) : Prop where
  name : ∃ s, e.name = .str s ∧ IsLine isBreak s
  owner : ∃ s, e.owner = .str s ∧ IsLine isBreak s
  group : ∃ s, e.group = .str s ∧ IsLine isBreak s

/-- The size, the time and the replication of an entry have a text; those of a directory are not
shown, but for the time. -/
structure Entry.Renders (e : Entry) : Prop where
  size : e.isDirectory = false → ∃ t, Amount.text e.length = .ok t
  time : ∃ t, Timestamp.text e.modified = .ok t
  replication : e.isDirectory = false → ∃ t, Page.number e.replication = .ok t

/-- A line shows an entry in the columns of the permission, of the owner and of the group, none of
which is cut, and the name at its end. -/
structure IsAligned (ownerWidth groupWidth : Nat) (e : Entry) (line : String) : Prop where
  permission : ∃ symbolic, Permission.decode (.int e.permission) e.isDirectory = .ok symbolic ∧
    let shown := if e.hasAcl then symbolic ++ "+" else symbolic
    shown.length ≤ 11 ∧ columns 0 11 line = padRight 11 shown
  owner : ∃ owner, e.owner = .str owner ∧ owner.length ≤ ownerWidth ∧
    columns 12 ownerWidth line = padRight ownerWidth owner
  group : ∃ group, e.group = .str group ∧ group.length ≤ groupWidth ∧
    columns (13 + ownerWidth) groupWidth line = padRight groupWidth group
  name : ∃ name before, e.name = .str name ∧
    line = before ++ "  " ++ (if e.isDirectory then name ++ "/" else name)

namespace Page

open Listing

variable {isBreak : Char → Bool} {directory : String} {e : Entry} {r : Row} {line : String}
  {ownerWidth groupWidth : Nat}

theorem columns_of_cells {permission owner group : String} (rest : String)
    (hpermission : permission.length = 11) (howner : owner.length = ownerWidth)
    (hgroup : group.length = groupWidth) :
    let line := permission ++ " " ++ owner ++ " " ++ group ++ rest
    columns 0 11 line = permission ∧ columns 12 ownerWidth line = owner ∧
      columns (13 + ownerWidth) groupWidth line = group := by
  intro line
  subst howner hgroup
  have hfirst := columns_append "" permission (" " ++ owner ++ " " ++ group ++ rest)
  have hsecond := columns_append (permission ++ " ") owner (" " ++ group ++ rest)
  have hthird := columns_append (permission ++ " " ++ owner ++ " ") group rest
  have hblank : " ".length = 1 := rfl
  simp only [String.length_append, hpermission, hblank, ← String.append_assoc, String.empty_append]
    at hfirst hsecond hthird
  have hstart : 11 + 1 + owner.length + 1 = 13 + owner.length := by omega
  rw [hstart] at hthird
  exact ⟨hfirst, hsecond, hthird⟩

theorem line_of_row (hrow : IsRowOf directory e r) (hline : row ownerWidth groupWidth r = .ok line)
    {name owner group : String} (hname : e.name = .str name) (howner : e.owner = .str owner)
    (hgroup : e.group = .str group) : ∃ replication size time,
      unlessDirectory r (number r.replication) = .ok replication ∧
      unlessDirectory r (Amount.text r.length) = .ok size ∧
      Timestamp.text r.modified = .ok time ∧
      line = padRight 11 r.permission ++ " " ++ padRight ownerWidth owner ++ " " ++
        padRight groupWidth group ++ " " ++ padLeft 10 size ++ " " ++ padLeft 16 time ++ " " ++
        padLeft 3 replication ++ "  " ++ (if e.isDirectory then name ++ "/" else name) := by
  obtain ⟨shownName, replication, size, shownOwner, shownGroup, time, hshownName, hreplication,
    hsize, hshownOwner, hshownGroup, htime, rfl⟩ := row_eq_ok_iff.mp hline
  rw [hrow.owner, howner] at hshownOwner
  rw [hrow.group, hgroup] at hshownGroup
  rw [rowName, hrow.name, hname, hrow.isDirectory] at hshownName
  obtain rfl : padRight ownerWidth owner = shownOwner := Except.ok.inj hshownOwner
  obtain rfl : padRight groupWidth group = shownGroup := Except.ok.inj hshownGroup
  exact ⟨replication, size, time, hreplication, hsize, htime, by rw [Except.ok.inj hshownName]⟩

theorem isAligned_of_row (hrow : IsRowOf directory e r)
    (hline : row ownerWidth groupWidth r = .ok line) {name owner group : String}
    (hname : e.name = .str name) (howner : e.owner = .str owner) (hgroup : e.group = .str group)
    (hownerWidth : owner.length ≤ ownerWidth) (hgroupWidth : group.length ≤ groupWidth) :
    IsAligned ownerWidth groupWidth e line := by
  obtain ⟨symbolic, hdecode, hpermission⟩ := hrow.permission
  obtain ⟨replication, size, time, -, -, -, rfl⟩ := line_of_row hrow hline hname howner hgroup
  have hwidth : r.permission.length ≤ 11 := by
    have hlength := Permission.length_of_decode hdecode
    rw [hpermission]
    split
    · rw [String.length_append, hlength]
      rfl
    · omega
  obtain ⟨hfirst, hsecond, hthird⟩ := columns_of_cells
    (" " ++ padLeft 10 size ++ " " ++ padLeft 16 time ++ " " ++ padLeft 3 replication ++ "  " ++
      (if e.isDirectory then name ++ "/" else name))
    (length_padRight hwidth) (length_padRight hownerWidth) (length_padRight hgroupWidth)
  simp only [← String.append_assoc] at hfirst hsecond hthird
  exact {
    permission := ⟨symbolic, hdecode, hpermission ▸ hwidth, hpermission ▸ hfirst⟩
    owner := ⟨owner, howner, hownerWidth, hsecond⟩
    group := ⟨group, hgroup, hgroupWidth, hthird⟩
    name := ⟨name, _, hname, rfl⟩ }

theorem allPlain_unlessDirectory {x : Except Fault String} {t : String}
    (h : unlessDirectory r x = .ok t) (hx : ∀ t, x = .ok t → AllPlain t.toList) :
    AllPlain t.toList := by
  unfold unlessDirectory at h
  split at h
  · cases h
    decide
  · exact hx t h

theorem allPlain_number {n : Int} {t : String} (h : number n = .ok t) : AllPlain t.toList := by
  unfold number at h
  cases hwrite : Numeral.write n with
  | ok text =>
      rw [hwrite] at h
      cases h
      exact Numeral.allPlain_write hwrite
  | error why =>
      rw [hwrite] at h
      cases h

section Lines

variable (hplain : ∀ c, isPlain c = true → isBreak c = false)
include hplain

theorem isLine_of_row (hrow : IsRowOf directory e r)
    (hline : row ownerWidth groupWidth r = .ok line) (hinline : e.IsInline isBreak) :
    IsLine isBreak line := by
  have hplainly {s : String} (h : AllPlain s.toList) : IsLine isBreak s :=
    isLine_of_allPlain hplain h
  obtain ⟨symbolic, hdecode, hpermission⟩ := hrow.permission
  obtain ⟨name, hname, hnameLine⟩ := hinline.name
  obtain ⟨owner, howner, hownerLine⟩ := hinline.owner
  obtain ⟨group, hgroup, hgroupLine⟩ := hinline.group
  obtain ⟨replication, size, time, hreplication, hsize, htime, rfl⟩ :=
    line_of_row hrow hline hname howner hgroup
  have hshown : IsLine isBreak (if e.isDirectory then name ++ "/" else name) := by
    split
    · exact isLine_append.mpr ⟨hnameLine, hplainly (by decide)⟩
    · exact hnameLine
  have hmarked : IsLine isBreak r.permission := by
    have hsymbolic : IsLine isBreak symbolic := hplainly (Permission.allPlain_decode hdecode)
    rw [hpermission]
    split
    · exact isLine_append.mpr ⟨hsymbolic, hplainly (by decide)⟩
    · exact hsymbolic
  have hblank : IsLine isBreak " " := hplainly (by decide)
  have hgap : IsLine isBreak "  " := hplainly (by decide)
  have hsizeLine : IsLine isBreak size :=
    hplainly (allPlain_unlessDirectory hsize fun _ => Amount.allPlain_text)
  have htimeLine : IsLine isBreak time := hplainly (Timestamp.allPlain_text htime)
  have hreplicationLine : IsLine isBreak replication :=
    hplainly (allPlain_unlessDirectory hreplication fun _ => allPlain_number)
  simp only [isLine_append, isLine_padRight hplain, isLine_padLeft hplain, hmarked, hblank,
    hownerLine, hgroupLine, hsizeLine, htimeLine, hreplicationLine, hgap, hshown, and_self]

theorem isLine_of_mem_segments (hdirectory : IsLine isBreak directory) {name : String}
    (h : name ∈ Path.segments directory) : IsLine isBreak name := by
  obtain ⟨piece, hpiece, rfl⟩ := List.mem_map.mp h
  intro c hc
  rw [String.toList_ofList] at hc
  have hnormal : c ∈ (Path.normalize directory).toList := by
    rw [Path.normalize, String.toList_ofList]
    exact mem_of_mem_splitOnChar (List.mem_of_mem_filter hpiece) hc
  rcases Path.mem_normalize hnormal with rfl | hmem
  · exact hplain '/' (by decide)
  · exact hdirectory c hmem

theorem isLine_header {entries : List Entry} {l : Listing}
    (hl : ofEntries directory entries = .ok l) (hdirectory : IsLine isBreak directory) :
    IsLine isBreak (header l) := by
  obtain ⟨rows, -, rfl⟩ := ofEntries_eq_ok_iff.mp hl
  have hseparator : IsLine isBreak " / " := isLine_of_allPlain hplain (by decide)
  have hfirst : IsLine isBreak "/ " := isLine_of_allPlain hplain (by decide)
  have hsegments : Path.segments (Path.normalize directory) = Path.segments directory := by
    simp [Path.segments, Path.normalize]
  intro c hc
  rw [header, String.toList_ofList] at hc
  have hmem := (List.rdropWhile_prefix isBlank _).subset hc
  rw [String.toList_append, List.mem_append] at hmem
  rcases hmem with hmem | hmem
  · exact hfirst c hmem
  · rcases mem_joinWith hmem with hmem | ⟨name, hname, hmem⟩
    · exact hseparator c hmem
    · rw [Path.trail, List.drop_one, List.tail_cons, Path.crumbsBelow_names, hsegments] at hname
      exact isLine_of_mem_segments hplain hdirectory hname c hmem

end Lines

/-! ## Widths -/

theorem isGreatest_widest {vs : List Value} {width : Nat} (h : widest vs = .ok width)
    (hne : vs ≠ []) : IsGreatest {k | ∃ v ∈ vs, v.size = .ok k} width := by
  obtain ⟨sizes, hsizes, hwidth⟩ := bind_eq_ok_iff.mp h
  obtain rfl : sizes.foldl max 0 = width := Except.ok.inj hwidth
  have hsizesNe : sizes ≠ [] := by
    rintro rfl
    exact hne (List.length_eq_zero_iff.mp (mapM_eq_ok_iff.mp hsizes).length_eq)
  obtain ⟨greatest, hgreatest⟩ := Option.ne_none_iff_exists'.mp
    fun hnone => hsizesNe (List.max?_eq_none_iff.mp hnone)
  obtain ⟨hmem, hle⟩ := List.max?_eq_some_iff.mp hgreatest
  have hwide : sizes.foldl max 0 = greatest := by
    rw [List.foldl_max, hgreatest, Option.getD_some, Nat.zero_max]
  rw [hwide]
  constructor
  · exact exists_of_mem_mapM hsizes hmem
  · rintro k ⟨v, hv, hk⟩
    obtain ⟨size, hsize, hvSize⟩ := exists_mem_of_mapM hsizes hv
    rw [hk] at hvSize
    exact Except.ok.inj hvSize ▸ hle size hsize

/-! ## Whole listings -/

variable {entries : List Entry} {l : Listing}

theorem exists_number_of_ofListing {payload : Value} (hpayload : payload.WellFormed)
    (h : Entry.ofListing payload = .ok entries) :
    ∀ e ∈ entries, ∃ t, number e.replication = .ok t := by
  intro e he
  simp only [Entry.ofListing, bind_eq_ok_iff] at h
  obtain ⟨members, hmembers, statuses, hstatuses, hentries⟩ := h
  cases Value.asObject_eq_ok hmembers
  obtain ⟨status, hstatus, hentry⟩ := exists_of_mem_mapM hentries he
  have hlist : (Value.list []).WellFormed := .list fun _ hmem => absurd hmem List.not_mem_nil
  have hzero : (Value.int 0).WellFormed := .int (by decide +kernel)
  have hwell := (hpayload.member "FileStatus" hlist).items hstatuses status hstatus
  cases status with
  | object fields =>
      obtain ⟨-, hreplication, -, -⟩ := Entry.fields_of_ofStatus hentry
      rw [exists_number_iff]
      exact Value.fits_of_asInteger (hwell.member "replication" hzero) hreplication
  | _ => cases hentry

theorem isShowable_iff_renders (hrow : IsRowOf directory e r) (hinline : e.IsInline isBreak) :
    r.IsShowable ↔ e.Renders := by
  obtain ⟨name, hname, -⟩ := hinline.name
  obtain ⟨owner, howner, -⟩ := hinline.owner
  obtain ⟨group, hgroup, -⟩ := hinline.group
  constructor
  · intro h
    exact {
      size := fun hfile => (Amount.exists_text_iff _).mpr
        (hrow.length ▸ h.length (hrow.isDirectory.trans hfile))
      time := (Timestamp.exists_text_iff _).mpr (hrow.modified ▸ h.modified)
      replication := fun hfile => (exists_number_iff _).mpr
        (hrow.replication ▸ h.replication (hrow.isDirectory.trans hfile)) }
  · intro h
    exact {
      name := ⟨name, hrow.name.trans hname⟩
      owner := ⟨owner, hrow.owner.trans howner⟩
      group := ⟨group, hrow.group.trans hgroup⟩
      replication := fun hfile => hrow.replication ▸ (exists_number_iff _).mp
        (h.replication (hrow.isDirectory.symm.trans hfile))
      length := fun hfile => hrow.length ▸ (Amount.exists_text_iff _).mp
        (h.size (hrow.isDirectory.symm.trans hfile))
      modified := hrow.modified ▸ (Timestamp.exists_text_iff _).mp h.time }

theorem exists_text_iff_renders (hl : ofEntries directory entries = .ok l)
    (hinline : ∀ e ∈ entries, e.IsInline isBreak) :
    (∃ text, (Page.listing l).text = .ok text) ↔ ∀ e ∈ entries, e.Renders := by
  have hrows := (List.forall₂_and_left _ _).mpr ⟨hinline, forall₂_rows hl⟩
  have hiff := hrows.imp fun e r h => isShowable_iff_renders h.2 h.1
  rw [exists_text_listing_iff]
  generalize l.rows = rows at hiff
  clear hrows hinline hl
  induction hiff with
  | nil => simp
  | cons hfirst _ ih =>
      rw [List.forall_mem_cons, List.forall_mem_cons]
      exact and_congr hfirst ih

theorem isGreatest_of_texts {field : Entry → Value}
    (htexts : ∀ e ∈ entries, ∃ s, field e = .str s) (hne : entries ≠ []) {width : Nat}
    (h : widest (entries.map field) = .ok width) :
    IsGreatest {k | ∃ e ∈ entries, ∃ s, field e = .str s ∧ s.length = k} width := by
  obtain ⟨⟨v, hv, hsize⟩, hbound⟩ := isGreatest_widest h (by simpa using hne)
  obtain ⟨e, he, rfl⟩ := List.mem_map.mp hv
  obtain ⟨s, hs⟩ := htexts e he
  rw [hs] at hsize
  refine ⟨⟨e, he, s, hs, Except.ok.inj hsize⟩, ?_⟩
  rintro k ⟨other, hother, t, ht, rfl⟩
  exact hbound ⟨field other, List.mem_map_of_mem hother, by rw [ht]; rfl⟩

theorem listingLines_of_rows (hne : l.rows ≠ []) {ts : List String}
    (h : listingLines l = .ok ts) : ∃ ownerWidth groupWidth lines,
      widest (l.rows.map (·.owner)) = .ok ownerWidth ∧
      widest (l.rows.map (·.group)) = .ok groupWidth ∧
      l.rows.mapM (row ownerWidth groupWidth) = .ok lines ∧ ts = header l :: lines := by
  have hsome : ¬ l.rows.isEmpty := by simpa using hne
  rw [listingLines, if_neg hsome] at h
  simp only [bind_eq_ok_iff, Except.ok.injEq] at h
  obtain ⟨ownerWidth, hownerWidth, groupWidth, hgroupWidth, lines, hlines, rfl⟩ := h
  exact ⟨ownerWidth, groupWidth, lines, hownerWidth, hgroupWidth, hlines, rfl⟩

/-- A listing of entries whose name, owner and group are texts of one line has a text when their
sizes, times and replications have one, and the replications that a gateway lists do.  The text is
the header and one line for each entry, in order, on which the entry is aligned with all others. -/
theorem listing_lines_are_aligned (hnewline : isBreak '\n' = true)
    (hplain : ∀ c, isPlain c = true → isBreak c = false)
    (hl : ofEntries directory entries = .ok l) (hne : entries ≠ [])
    (hdirectory : IsLine isBreak directory) (hinline : ∀ e ∈ entries, e.IsInline isBreak) :
    ((∃ text, (Page.listing l).text = .ok text) ↔ ∀ e ∈ entries, e.Renders) ∧
    (∀ payload : Value, payload.WellFormed → Entry.ofListing payload = .ok entries →
      ∀ e ∈ entries, ∃ t, number e.replication = .ok t) ∧
    ∀ text, (Page.listing l).text = .ok text → ∃ lines ownerWidth groupWidth,
      IsGreatest {k | ∃ e ∈ entries, ∃ owner, e.owner = .str owner ∧ owner.length = k} ownerWidth ∧
      IsGreatest {k | ∃ e ∈ entries, ∃ group, e.group = .str group ∧ group.length = k} groupWidth ∧
      text.toList.splitOnP isBreak = (header l).toList :: lines.map String.toList ∧
      List.Forall₂ (IsAligned ownerWidth groupWidth) entries lines := by
  refine ⟨exists_text_iff_renders hl hinline, fun payload hpayload hentries =>
    exists_number_of_ofListing hpayload hentries, fun text htext => ?_⟩
  have hrows := forall₂_rows hl
  have hrowsNe : l.rows ≠ [] := by
    intro hnil
    rw [hnil, List.forall₂_nil_right_iff] at hrows
    exact hne hrows
  obtain ⟨ts, hts, rfl⟩ := map_eq_ok_iff.mp htext
  obtain ⟨ownerWidth, groupWidth, lines, hownerWidth, hgroupWidth, hlines, rfl⟩ :=
    listingLines_of_rows hrowsNe hts
  rw [map_rows hl fun _ _ h => h.owner] at hownerWidth
  rw [map_rows hl fun _ _ h => h.group] at hgroupWidth
  have howners := isGreatest_of_texts (fun e he => (hinline e he).owner.imp fun _ h => h.1) hne
    hownerWidth
  have hgroups := isGreatest_of_texts (fun e he => (hinline e he).group.imp fun _ h => h.1) hne
    hgroupWidth
  refine ⟨lines, ownerWidth, groupWidth, howners, hgroups, ?_, ?_⟩
  · rw [splitOnP_joinWith hnewline (List.cons_ne_nil _ _), List.map_cons]
    rw [List.forall_mem_cons]
    refine ⟨isLine_header hplain hl hdirectory, fun line hline => ?_⟩
    obtain ⟨r, hr, hrow⟩ := exists_of_mem_mapM hlines hline
    obtain ⟨e, he, hof⟩ := exists_isRowOf hl hr
    exact isLine_of_row hplain hof hrow (hinline e he)
  · have hentries : List.Forall₂ (fun e r => e ∈ entries ∧ IsRowOf _ e r) entries l.rows :=
      (List.forall₂_and_left _ _).mpr ⟨fun e he => he, hrows⟩
    refine (forall₂_comp hentries (mapM_eq_ok_iff.mp hlines)).imp ?_
    rintro e line ⟨r, ⟨he, hof⟩, hrow⟩
    obtain ⟨name, hname, -⟩ := (hinline e he).name
    obtain ⟨owner, howner, -⟩ := (hinline e he).owner
    obtain ⟨group, hgroup, -⟩ := (hinline e he).group
    exact isAligned_of_row hof hrow hname howner hgroup
      (howners.2 ⟨e, he, owner, howner, rfl⟩) (hgroups.2 ⟨e, he, group, hgroup, rfl⟩)

theorem listing_lines_are_aligned_of_folder :
    let isBreak : Char → Bool := (· == '\n')
    let folder : Entry := ⟨.str "notes", true, 1755, .str "ana", .str "staff", 0, 0, true, 0, 0⟩
    let file : Entry := ⟨.str "plan é", false, 644, .str "", .str "ops", 3, 2048, false, 0, 0⟩
    ∃ l text lines ownerWidth groupWidth, ofEntries "/home" [folder, file] = .ok l ∧
      (Page.listing l).text = .ok text ∧
      text.toList.splitOnP isBreak = (header l).toList :: lines.map String.toList ∧
      List.Forall₂ (IsAligned ownerWidth groupWidth) [folder, file] lines := by
  intro isBreak folder file
  have hboth {P : Entry → Prop} (hfolder : P folder) (hfile : P file) :
      ∀ e ∈ [folder, file], P e := by simp [hfolder, hfile]
  have hnames : ∀ e ∈ [folder, file], ∃ name, e.name = .str name := hboth ⟨_, rfl⟩ ⟨_, rfl⟩
  have hdecodes : ∀ e ∈ [folder, file],
      ∃ symbolic, Permission.decode (.int e.permission) e.isDirectory = .ok symbolic :=
    hboth ⟨"drwxr-xr-t", by decide +kernel⟩ ⟨"-rw-r--r--", by decide +kernel⟩
  obtain ⟨l, hl⟩ := (exists_ofEntries_iff hnames).mpr hdecodes
  have hplain : ∀ c, isPlain c = true → isBreak c = false := by
    intro c hc
    have hne : c ≠ '\n' := fun heq => absurd (heq ▸ hc) (by decide)
    simpa [isBreak] using hne
  have hdirectory : IsLine isBreak "/home" := by decide
  have hinline : ∀ e ∈ [folder, file], e.IsInline isBreak :=
    hboth ⟨⟨_, rfl, by decide⟩, ⟨_, rfl, by decide⟩, ⟨_, rfl, by decide⟩⟩
      ⟨⟨_, rfl, by decide⟩, ⟨_, rfl, by decide⟩, ⟨_, rfl, by decide⟩⟩
  have hrenders : ∀ e ∈ [folder, file], e.Renders :=
    hboth ⟨nofun, ⟨"-", by decide⟩, nofun⟩
      ⟨fun _ => ⟨"2.0 KB", by decide +kernel⟩, ⟨"-", by decide⟩, fun _ => ⟨"3", by decide +kernel⟩⟩
  obtain ⟨hrendered, -, hlines⟩ := listing_lines_are_aligned
    (by decide : isBreak '\n' = true) hplain hl (by simp) hdirectory hinline
  obtain ⟨text, htext⟩ := hrendered.mpr hrenders
  obtain ⟨lines, ownerWidth, groupWidth, -, -, hsplit, haligned⟩ := hlines text htext
  exact ⟨l, text, lines, ownerWidth, groupWidth, hl, htext, hsplit, haligned⟩

end Page

end HdfsBrowser
