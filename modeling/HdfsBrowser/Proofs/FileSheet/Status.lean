import HdfsBrowser.Proofs.FileSheet.Menu
import HdfsBrowser.Proofs.Gateway.Resource
import HdfsBrowser.Proofs.Gateway.Response
import HdfsBrowser.Proofs.Permission.Symbolic
import HdfsBrowser.Proofs.Session.Inspection

/-!
# The status on a file sheet

A file whose blocks are known is shown with its status or without.  A status
that the gateway refuses is left out.  One that the gateway gives has to be an
object whose numbers are integers and whose permission is one: then the sheet
is the same but for the status and the permissions.  For every other status the
file is not shown at all.
-/

namespace HdfsBrowser

/-! ## Permissions of entries -/

namespace Permission

variable {n : Int}

theorem exists_flagsOfBits_iff (hfits : Numeral.Fits n) :
    (∃ f, flagsOfBits (.int n) = .ok f) ↔ ¬ IsNoPermission n := by
  simp only [flagsOfBits, bind_eq_ok_iff]
  constructor
  · rintro ⟨f, s, hs, -⟩ hnone
    obtain ⟨why, hwhy⟩ := decode_of_isNoPermission hfits hnone false
    simp [hwhy] at hs
  · intro hpermission
    obtain ⟨bits, rfl, hrange, hsmall⟩ := not_isNoPermission_iff.mp hpermission
    refine ⟨Flags.ofBits bits, _, decode_ofNat hrange hsmall false, ?_⟩
    exact ofSymbolic_chars ⟨isBody_chars false _, 0, by simp⟩

end Permission

namespace Entry

variable {members : List (String × Value)} {e : Entry}

theorem exists_ofStatus_iff :
    (∃ e, ofStatus (.object members) = .ok e) ↔
      ∀ v ∈ numbers members, ∃ n, v.asInteger = .ok n := by
  rw [← exists_mapM_eq_ok_iff]
  constructor
  · rintro ⟨e, he⟩
    cases hnumbers : (numbers members).mapM Value.asInteger with
    | ok ns => exact ⟨ns, rfl⟩
    | error why => simp [ofStatus_object_eq_error_iff.mpr hnumbers] at he
  · rintro ⟨ns, hns⟩
    cases he : ofStatus (.object members) with
    | ok e => exact ⟨e, rfl⟩
    | error why => simp [ofStatus_object_eq_error_iff.mp he] at hns

theorem fields_of_ofStatus (h : ofStatus (.object members) = .ok e) :
    (Value.member members "permission" (.str "0")).asInteger = .ok e.permission ∧
      (Value.member members "replication" (.int 0)).asInteger = .ok e.replication ∧
      e.owner = Value.member members "owner" (.str "") ∧
      e.group = Value.member members "group" (.str "") := by
  simp only [ofStatus, bind_eq_ok_iff] at h
  obtain ⟨found, hfound, permission, hpermission, replication, hreplication, _, -, _, -, _, -, h⟩ :=
    h
  cases Value.asObject_eq_ok hfound
  cases h
  exact ⟨hpermission, hreplication, rfl, rfl⟩

end Entry

/-! ## Pages of files -/

namespace Page

def menuLines (f : FileSheet) : Except Fault (List (List String)) :=
  if f.showsBlocks then f.menu.mapM blockLines else .ok []

theorem exists_text_file_iff (f : FileSheet) :
    (∃ text, (Page.file f).text = .ok text) ↔
      (∃ length, Amount.text f.length = .ok length) ∧ (∃ ts, statusLines f.status = .ok ts) ∧
        ∃ blocks, menuLines f = .ok blocks := by
  have hlines : fileLines f = (Amount.text f.length >>= fun length =>
      statusLines f.status >>= fun status => menuLines f >>= fun blocks =>
      .ok ([f.title, "  Download: " ++ f.download, "  Length: " ++ length] ++ status ++
        blocks.flatten)) := by
    unfold fileLines menuLines
    cases f.showsBlocks <;> rfl
  have htext : (∃ text, (Page.file f).text = .ok text) ↔ ∃ ts, fileLines f = .ok ts := by
    constructor
    · rintro ⟨text, htext⟩
      obtain ⟨ts, hts, -⟩ := map_eq_ok_iff.mp htext
      exact ⟨ts, hts⟩
    · rintro ⟨ts, hts⟩
      exact ⟨_, map_eq_ok_iff.mpr ⟨ts, hts, rfl⟩⟩
  rw [htext, hlines]
  simp only [bind_eq_ok_iff]
  constructor
  · rintro ⟨ts, length, hlength, status, hstatus, blocks, hblocks, -⟩
    exact ⟨⟨length, hlength⟩, ⟨status, hstatus⟩, blocks, hblocks⟩
  · rintro ⟨⟨length, hlength⟩, ⟨status, hstatus⟩, blocks, hblocks⟩
    exact ⟨_, length, hlength, status, hstatus, blocks, hblocks, rfl⟩

theorem exists_statusLines {e : Entry} (howner : e.owner.printable = true)
    (hgroup : e.group.printable = true) (hreplication : Numeral.Fits e.replication) :
    ∃ ts, statusLines (some e) = .ok ts := by
  obtain ⟨replication, hreplication⟩ := (exists_number_iff _).mpr hreplication
  simp only [statusLines, bind_eq_ok_iff]
  exact ⟨_, _, Value.asText_of_printable howner, _, Value.asText_of_printable hgroup, _,
    hreplication, rfl⟩

end Page

/-! ## Statuses that can be read -/

/-- A status that can be read: its numbers are integers, and its permission is one. -/
def Value.IsStatus (payload : Value) : Prop :=
  ∃ members, payload = .object members ∧
    (∀ v ∈ Entry.numbers members, ∃ n, v.asInteger = .ok n) ∧
    ∀ n, (Value.member members "permission" (.str "0")).asInteger = .ok n →
      ¬ Permission.IsNoPermission n

def FileSheet.withoutStatus (f : FileSheet) : FileSheet :=
  { f with permissions := none, status := none }

namespace Activity

theorem exists_flagsOf_iff {entry : Entry} (hfits : Numeral.Fits entry.permission) :
    (∃ flags, FileSheet.flagsOf (some entry) = .ok flags) ↔
      ¬ Permission.IsNoPermission entry.permission := by
  rw [← Permission.exists_flagsOfBits_iff hfits]
  unfold FileSheet.flagsOf
  constructor
  · rintro ⟨flags, hflags⟩
    obtain ⟨f, hf, -⟩ := map_eq_ok_iff.mp hflags
    exact ⟨f, hf⟩
  · rintro ⟨f, hf⟩
    exact ⟨some f, map_eq_ok_iff.mpr ⟨f, hf, rfl⟩⟩

theorem exists_statusLines_of_ofStatus {members : List (String × Value)} {entry : Entry}
    (hpayload : (Value.object members).WellFormed)
    (hentry : Entry.ofStatus (.object members) = .ok entry) :
    Numeral.Fits entry.permission ∧ ∃ ts, Page.statusLines (some entry) = .ok ts := by
  obtain ⟨hpermission, hreplication, howner, hgroup⟩ := Entry.fields_of_ofStatus hentry
  have hzero : (Value.int 0).WellFormed := .int (by decide +kernel)
  have hempty : (Value.str "").WellFormed := .str ""
  refine ⟨Value.fits_of_asInteger (hpayload.member "permission" (.str "0")) hpermission,
    Page.exists_statusLines ?_ ?_ (Value.fits_of_asInteger (hpayload.member "replication" hzero)
      hreplication)⟩
  · exact howner ▸ (hpayload.member "owner" hempty).printable
  · exact hgroup ▸ (hpayload.member "group" hempty).printable

theorem describing_of_begin {action : Action} (hwaiting : (begin c action).2 = .waiting a calls) :
    a.phase ≠ .describing path located := by
  intro hphase
  have hopened := opened?_begin c action
  rw [hwaiting, Progress.opened?, hphase] at hopened
  obtain ⟨opened, rfl, -⟩ := Action.opened?_eq_some hopened.symm
  cases hwaiting
  cases hphase

end Activity

/-! ## Files on the screen -/

namespace Session

variable {s t : Session} {owner : Nat} {sheet : FileSheet}

/-- An owner ends with the sheet of a file, which is on the screen. -/
structure ShowsFile (s t : Session) (owner : Nat) (sheet : FileSheet) : Prop where
  ended : t.ended = s.ended ++ [(owner, .answered (.sheet sheet))]
  shown : t.console.screen.shown = some (.file sheet)
  written : ∃ text, (Page.file sheet).text = .ok text ∧
    t.console.screen.written = s.console.screen.written ++ [.page text]

/-- An owner raises a fault, or it complains and has no answer; what is shown stays. -/
structure MissesFile (s t : Session) (owner : Nat) : Prop where
  ended : (∃ why, t.ended = s.ended ++ [(owner, .aborted (.single why))]) ∨
    t.ended = s.ended ++ [(owner, .answered .nothing)]
  shown : t.console.screen.shown = s.console.screen.shown

theorem ShowsFile.of_withdraw {number : Nat} (h : (s.withdraw number).ShowsFile t owner sheet) :
    s.ShowsFile t owner sheet :=
  ⟨h.ended, h.shown, h.written⟩

theorem MissesFile.of_withdraw {number : Nat} (h : (s.withdraw number).MissesFile t owner) :
    s.MissesFile t owner :=
  ⟨h.ended, h.shown⟩

theorem MissesFile.not_showsFile (h : s.MissesFile t owner) (sheet : FileSheet) :
    ¬ s.ShowsFile t owner sheet := by
  intro hshows
  rcases h.ended with ⟨why, hended⟩ | hended <;> simp [hshows.ended] at hended

end Session

theorem Call.query_of_operation (settings : Settings) (op : Operation) (path : String) :
    Form.query (Call.query settings ⟨op, path, [], []⟩) = String.ofList
      (Form.pairChars ("op", op.name) ++
      if settings.user = "" then [] else '&' :: Form.pairChars ("user.name", settings.user)) := by
  unfold Call.query
  split
  · simp [Form.query, Form.grouped, Form.addGrouped, Form.pairsChars]
  · simp [Form.query, Form.grouped, Form.addGrouped, Form.pairsChars]

section

variable [Client]

/-! ## Values of responses -/

theorem Outcome.wellFormed_ofResponse {op : Operation} {address : String} {r : Response} {v : Value}
    (h : ofResponse op address r = .ok (.ok v)) : v.WellFormed := by
  obtain ⟨-, hvalue⟩ := ((ofResponse_gives_or_tells op address r).1 v).mp h
  rcases hvalue with ⟨-, text, -, rfl⟩ | ⟨-, -, -, ⟨-, rfl⟩ | ⟨key, -, hholds⟩⟩
  · exact .str text
  · exact .null
  · obtain ⟨d, members, -, hd, hlookup⟩ := hholds
    have hobject : (Value.object members).WellFormed := hd ▸ d.wellFormed
    exact hobject.of_mem _ (Value.mem_of_lookup? hlookup)

theorem Draft.wellFormed_of_resolution {d : Draft} {replies : List Reply} {v : Value}
    (h : d.resolution replies = .returned (.ok v)) : v.WellFormed := by
  obtain ⟨response, -, hread⟩ := resolve_eq_value_iff.mp h
  exact Outcome.wellFormed_ofResponse hread

theorem Session.wellFormed_of_heard {s : Session} {e : Event} {x : Hearing}
    (h : s.heard? e = some x) {v : Value} (hvalue : x.outcome = .ok v) : v.WellFormed := by
  cases e with
  | start owner action => cases h
  | reply number r =>
      simp only [heard?] at h
      split at h
      · cases h
      · next p _ =>
          split at h
          · next a o _ hresolution =>
              cases h
              obtain rfl : o = .ok v := hvalue
              exact Draft.wellFormed_of_resolution hresolution
          · cases h

/-! ## Addresses of downloads -/

namespace Call

theorem exists_downloadAddress {settings : Settings} {path : String}
    (h : ∃ text, (status path).address settings = .ok text) :
    ∃ text, downloadAddress settings path = .ok text := by
  obtain ⟨text, htext⟩ := h
  obtain ⟨u, hurl, -⟩ := map_eq_ok_iff.mp htext
  obtain ⟨hbase, hquery, hu⟩ := (Url.parseWithQuery_eq_ok_iff _ _ _).mp hurl
  have hshorter : Url.IsAllowed (Form.query ((reading path none).query settings)) := by
    rw [isAllowed_query] at hquery ⊢
    refine Nat.le_trans ?_ hquery
    rw [reading, status, query_of_operation, query_of_operation, String.length_ofList,
      String.length_ofList, List.length_append, List.length_append]
    exact Nat.add_le_add_right (by decide) _
  let v : Url := { u with
    query := some (Url.encodePart Percent.querySafe
      (Form.query ((reading path none).query settings))) }
  have hv : Url.Describes { Url.cut (base settings path) with
      query := some (Form.query ((reading path none).query settings)) } v :=
    ⟨hu.scheme, hu.user, hu.host, hu.port, hu.allowed, hu.path, rfl, hu.fragment⟩
  have hdownload : (reading path none).url settings = .ok v :=
    (Url.parseWithQuery_eq_ok_iff _ _ _).mpr ⟨hbase, hshorter, hv⟩
  exact ⟨v.text, by rw [downloadAddress, address, hdownload, Except.map]⟩

end Call

namespace Activity

variable {settings : Settings} {path : String} {located payload : Value} {bare sheet : FileSheet}

/-! ## Sheets with and without a status -/

theorem sheetOf_of_flags (hbare : sheetOf settings path located none = .ok bare)
    (status : Option Entry) :
    sheetOf settings path located status =
      (FileSheet.flagsOf status).map fun flags => { bare with permissions := flags, status } := by
  simp only [sheetOf, bind_eq_ok_iff] at hbare
  obtain ⟨map, hmap, download, hdownload, hbare⟩ := hbare
  cases hbare
  simp only [sheetOf, hmap, hdownload, FileSheet.ofMap]
  cases FileSheet.flagsOf status <;> rfl

theorem withoutStatus_of_none (hbare : sheetOf settings path located none = .ok bare) :
    bare.withoutStatus = bare := by
  have hnone := sheetOf_of_flags hbare none
  rw [hbare] at hnone
  exact (Except.ok.inj hnone).symm

theorem exists_sheet_of_isStatus (hpayload : payload.WellFormed) (hstatus : payload.IsStatus)
    (hbare : sheetOf settings path located none = .ok bare) :
    ∃ entry sheet, Entry.ofStatus payload = .ok entry ∧
      sheetOf settings path located (some entry) = .ok sheet ∧ sheet.withoutStatus = bare ∧
      ((∃ text, (Page.file bare).text = .ok text) → ∃ text, (Page.file sheet).text = .ok text) := by
  obtain ⟨members, rfl, hnumbers, hpermission⟩ := hstatus
  obtain ⟨entry, hentry⟩ := Entry.exists_ofStatus_iff.mpr hnumbers
  obtain ⟨hfits, hlines⟩ := exists_statusLines_of_ofStatus hpayload hentry
  obtain ⟨flags, hflags⟩ := (exists_flagsOf_iff hfits).mpr
    (hpermission _ (Entry.fields_of_ofStatus hentry).1)
  have hsheet := sheetOf_of_flags hbare (some entry)
  rw [hflags] at hsheet
  refine ⟨entry, _, hentry, hsheet, withoutStatus_of_none hbare, fun htext => ?_⟩
  obtain ⟨hlength, -, hmenu⟩ := (Page.exists_text_file_iff bare).mp htext
  exact (Page.exists_text_file_iff _).mpr ⟨hlength, hlines, hmenu⟩

theorem no_sheet_of_not_isStatus (hpayload : payload.WellFormed) (hstatus : ¬ payload.IsStatus)
    (hbare : sheetOf settings path located none = .ok bare) {entry : Entry}
    (hentry : Entry.ofStatus payload = .ok entry) :
    ∃ why, sheetOf settings path located (some entry) = .error why := by
  cases payload with
  | object members =>
      obtain ⟨hfits, -⟩ := exists_statusLines_of_ofStatus hpayload hentry
      have hnumbers := Entry.exists_ofStatus_iff.mp ⟨entry, hentry⟩
      have hbits := (Entry.fields_of_ofStatus hentry).1
      cases hflags : FileSheet.flagsOf (some entry) with
      | ok flags =>
          have hpermission := (exists_flagsOf_iff hfits).mp ⟨flags, hflags⟩
          refine absurd ⟨members, rfl, hnumbers, fun n hn => ?_⟩ hstatus
          obtain rfl : entry.permission = n := Except.ok.inj (hbits.symm.trans hn)
          exact hpermission
      | error why => exact ⟨why, by rw [sheetOf_of_flags hbare, hflags]; rfl⟩
  | _ => cases hentry

/-! ## Who asks for a status -/

theorem describing_of_resume {b : Activity} {slot : Nat} {o : Outcome}
    (hwaiting : (resume c b slot o).2 = .waiting a calls)
    (hphase : a.phase = .describing path located) : calls = [.status path] := by
  have hopened : (resume c b slot o).2.opened? = some path := by
    rw [hwaiting, Progress.opened?, hphase]
    rfl
  obtain ⟨control, phase⟩ := b
  cases phase with
  | locating target =>
      cases o with
      | ok found =>
          cases hwaiting
          cases hphase
          rfl
      | error why => simp [resume] at hopened
  | describing target found =>
      simp only [resume, described] at hopened
      split at hopened
      · simp at hopened
      · split at hopened
        · simp at hopened
        · split at hopened <;> simp at hopened
  | _ => cases opened?_resume hopened

theorem exists_address_of_ofCalls {settings : Settings} {call : Call}
    (h : (Draft.ofCalls settings 0 [call]).2 = []) : ∃ text, call.address settings = .ok text := by
  cases haddress : call.address settings with
  | ok text => exact ⟨text, rfl⟩
  | error why =>
      have hrequest : Draft.ofCall settings 0 call = .error why := by
        rw [Draft.ofCall, Call.request, haddress]
        rfl
      simp [Draft.ofCalls_cons, Draft.ofCalls_nil, hrequest] at h

end Activity

namespace Session

variable {s t : Session} {owner : Nat} {sheet bare : FileSheet}

/-- Who waits for the status of a file has asked for it. -/
def IsAddressed (s : Session) : Prop :=
  ∀ owner a path located, s.activity? owner = some a → a.phase = .describing path located →
    ∃ text, (Call.status path).address s.console.settings = .ok text

theorem isAddressed_step (h : s.IsAddressed) (e : Event) : (s.step e).IsAddressed := by
  intro owner a path located ha hphase
  rw [settings_step]
  have hothers {t : Session} {mover : Nat} {r : Console × Progress} (hne : mover ≠ owner)
      (hactivity : t.activity? owner = s.activity? owner)
      (hbusy : (t.proceed mover r).activity? owner = some a) :
      ∃ text, (Call.status path).address s.console.settings = .ok text := by
    have hsame := congrArg Share.activity? (share_proceed_of_ne hne t r)
    exact h owner a path located (hactivity.symm.trans (hsame.symm.trans hbusy)) hphase
  cases e with
  | start mover action =>
      cases hactivity : s.activity? mover with
      | some b => exact h owner a path located (by simpa [step, hactivity] using ha) hphase
      | none =>
          rw [step_start hactivity] at ha
          by_cases hne : mover = owner
          · subst hne
            obtain ⟨calls, hwaiting, -⟩ := waiting_of_busy ha
            exact absurd hphase (Activity.describing_of_begin hwaiting)
          · exact hothers hne rfl ha
  | reply number r =>
      rcases s.reply_cases number r with ⟨x, -, hactivity, hstep⟩ | ⟨-, -, hkept⟩
      · rw [hstep] at ha
        by_cases hne : x.owner = owner
        · subst hne
          obtain ⟨calls, hwaiting, hfaults⟩ := waiting_of_busy ha
          obtain rfl := Activity.describing_of_resume hwaiting hphase
          rw [Activity.settings_resume] at hfaults
          exact Activity.exists_address_of_ofCalls hfaults
        · exact hothers (t := s.withdraw number) hne rfl ha
      · exact h owner a path located (hkept owner a ha) hphase

theorem isAddressed_run (h : s.IsAddressed) (events : List Event) : (s.run events).IsAddressed := by
  induction events generalizing s with
  | nil => exact h
  | cons e events ih => exact ih (isAddressed_step h e)

theorem showsFile_display {text : String} (htext : (Page.file sheet).text = .ok text) (s : Session)
    (owner : Nat) (control : Option String) :
    s.ShowsFile (s.proceed owner (Activity.display s.console control (.file sheet) (.sheet sheet)))
      owner sheet := by
  have hdisplay : Activity.display s.console control (.file sheet) (.sheet sheet) =
      Activity.finish (s.console.setScreen { s.console.screen with
        shown := some (.file sheet), written := s.console.screen.written ++ [.page text] })
        control (.ok (.sheet sheet)) := by
    rw [Activity.display, Console.showPage_of_text s.console htext]
    rfl
  rw [hdisplay]
  have hends := s.endsBy_finish owner (s.console.setScreen { s.console.screen with
    shown := some (.file sheet), written := s.console.screen.written ++ [.page text] }) control
    (.ok (.sheet sheet))
  refine ⟨hends.ended, ?_, text, htext, ?_⟩
  · rw [Console.screen, hends.navigation]
    rfl
  · rw [Console.screen, hends.navigation]
    rfl

theorem missesFile_finish (s : Session) (owner : Nat) (control : Option String) (why : Fault) :
    s.MissesFile (s.proceed owner (Activity.finish s.console control (.error why))) owner := by
  have hends := s.endsBy_finish owner s.console control (.error why)
  refine ⟨.inl ⟨why, hends.ended⟩, ?_⟩
  rw [Console.screen, hends.navigation]
  rfl

theorem missesFile_complain (s : Session) (owner : Nat) (control : Option String)
    (message : Value) :
    s.MissesFile
      (s.proceed owner (Activity.complain s.console control message .nothing)) owner := by
  have hends := s.endsBy_finish owner (s.console.showError message) control (.ok .nothing)
  refine ⟨.inr hends.ended, ?_⟩
  rw [Activity.complain, Console.screen, hends.navigation]
  rfl

section Described

variable {path : String} {located payload : Value}

theorem describes_of_sheet {status : Option Entry} {o : Outcome}
    (hstatus : Activity.statusOf o = .ok status)
    (hsheet : Activity.sheetOf s.console.settings path located status = .ok sheet)
    (htext : ∃ text, (Page.file sheet).text = .ok text) (owner : Nat) (control : Option String) :
    s.ShowsFile (s.proceed owner (Activity.described s.console control path located o)) owner
      sheet := by
  obtain ⟨text, htext⟩ := htext
  simp only [Activity.described, hstatus, hsheet]
  exact showsFile_display htext s owner control

theorem describes_of_error
    (hbare : Activity.sheetOf s.console.settings path located none = .ok bare)
    (htext : ∃ text, (Page.file bare).text = .ok text) (why : Failure) (owner : Nat)
    (control : Option String) :
    s.ShowsFile (s.proceed owner (Activity.described s.console control path located (.error why)))
      owner bare :=
  describes_of_sheet rfl hbare htext owner control

theorem describes_of_isStatus (hpayload : payload.WellFormed) (hstatus : payload.IsStatus)
    (hbare : Activity.sheetOf s.console.settings path located none = .ok bare)
    (htext : ∃ text, (Page.file bare).text = .ok text) (owner : Nat) (control : Option String) :
    ∃ sheet, s.ShowsFile
      (s.proceed owner (Activity.described s.console control path located (.ok payload))) owner
      sheet ∧ sheet.withoutStatus = bare := by
  obtain ⟨entry, sheet, hentry, hsheet, hsame, hpage⟩ :=
    Activity.exists_sheet_of_isStatus hpayload hstatus hbare
  have hknown : Activity.statusOf (.ok payload) = .ok (some entry) := by
    rw [Activity.statusOf, hentry]
    rfl
  exact ⟨sheet, describes_of_sheet hknown hsheet (hpage htext) owner control, hsame⟩

theorem misses_of_not_isStatus (hpayload : payload.WellFormed) (hstatus : ¬ payload.IsStatus)
    (hbare : Activity.sheetOf s.console.settings path located none = .ok bare) (owner : Nat)
    (control : Option String) :
    s.MissesFile (s.proceed owner
      (Activity.described s.console control path located (.ok payload))) owner := by
  cases hentry : Entry.ofStatus payload with
  | error why =>
      have hunknown : Activity.statusOf (.ok payload) = .error why := by
        rw [Activity.statusOf, hentry]
        rfl
      simp only [Activity.described, hunknown]
      exact missesFile_finish s owner control why
  | ok entry =>
      have hknown : Activity.statusOf (.ok payload) = .ok (some entry) := by
        rw [Activity.statusOf, hentry]
        rfl
      obtain ⟨why, hwhy⟩ := Activity.no_sheet_of_not_isStatus hpayload hstatus hbare hentry
      simp only [Activity.described, hknown, hwhy]
      split
      · exact missesFile_complain s owner control _
      · exact missesFile_finish s owner control why

end Described

theorem step_of_describing {number : Nat} {r : Reply} {x : Hearing} {path : String}
    {located : Value} (hheard : s.heard? (.reply number r) = some x)
    (hphase : x.activity.phase = .describing path located) :
    s.activity? x.owner = some x.activity ∧
      s.step (.reply number r) = (s.withdraw number).proceed x.owner
        (Activity.described s.console x.activity.control path located x.outcome) := by
  rcases s.reply_cases number r with ⟨y, hy, hactivity, hstep⟩ | ⟨hunheard, -⟩
  · obtain rfl : x = y := Option.some.inj (hheard.symm.trans hy)
    refine ⟨hactivity, ?_⟩
    rw [hstep, Activity.resume.eq_def, hphase]
  · simp [hheard] at hunheard

/-- A file whose blocks are known, and whose page can be made of them, is shown whenever its status
is refused, and then its sheet is the one without a status.  When a status is given, the sheet is
the same but for that exactly if the status can be read; otherwise nothing is shown. -/
theorem file_is_shown_iff (settings : Settings) (fragment : String) (events : List Event)
    {number : Nat} {r : Reply} {x : Hearing} {path : String} {located : Value} {map : BlockMap}
    (hheard : ((opening settings fragment).run events).heard? (.reply number r) = some x)
    (hphase : x.activity.phase = .describing path located)
    (hmap : BlockMap.ofPayload located = .ok map)
    (hrenders : ∀ f, Activity.sheetOf settings path located none = .ok f →
      ∃ text, (Page.file f).text = .ok text) :
    let s := (opening settings fragment).run events
    let t := s.step (.reply number r)
    ∃ bare, Activity.sheetOf settings path located none = .ok bare ∧
      ((∃ why, x.outcome = .error why) → s.ShowsFile t x.owner bare) ∧
      ((∃ sheet, s.ShowsFile t x.owner sheet ∧ sheet.withoutStatus = bare) ↔
        ∀ payload, x.outcome = .ok payload → payload.IsStatus) ∧
      ((∃ payload, x.outcome = .ok payload ∧ ¬ payload.IsStatus) → s.MissesFile t x.owner) := by
  intro s t
  have hsettings : s.console.settings = settings := settings_run (opening settings fragment) events
  have haddressed : s.IsAddressed := isAddressed_run (fun owner a _ _ h => by cases h) events
  obtain ⟨hactivity, hstep⟩ := step_of_describing (s := s) hheard hphase
  change t = _ at hstep
  obtain ⟨download, hdownload⟩ := Call.exists_downloadAddress
    (haddressed _ _ path located hactivity hphase)
  obtain ⟨bare, hbare⟩ : ∃ bare, Activity.sheetOf settings path located none = .ok bare := by
    rw [hsettings] at hdownload
    simp only [Activity.sheetOf, hmap, hdownload]
    exact ⟨_, rfl⟩
  have htext := hrenders bare hbare
  have hsheet : Activity.sheetOf s.console.settings path located none = .ok bare :=
    hsettings ▸ hbare
  have hwell (payload : Value) (hok : x.outcome = .ok payload) : payload.WellFormed :=
    wellFormed_of_heard (s := s) hheard hok
  have hmisses : (∃ payload, x.outcome = .ok payload ∧ ¬ payload.IsStatus) →
      s.MissesFile t x.owner := by
    rintro ⟨payload, hok, hstatus⟩
    rw [hstep, hok]
    have hmissed := misses_of_not_isStatus (s := s.withdraw number) (hwell payload hok) hstatus
      hsheet x.owner x.activity.control
    exact hmissed.of_withdraw
  have hshows (why : Failure) (herror : x.outcome = .error why) : s.ShowsFile t x.owner bare := by
    rw [hstep, herror]
    have hshown := describes_of_error (s := s.withdraw number) hsheet htext why x.owner
      x.activity.control
    exact hshown.of_withdraw
  refine ⟨bare, hbare, fun herror => herror.elim hshows, ⟨?_, fun hstatus => ?_⟩, hmisses⟩
  · rintro ⟨sheet, hshown, -⟩ payload hok
    by_contra hstatus
    exact (hmisses ⟨payload, hok, hstatus⟩).not_showsFile sheet hshown
  · cases houtcome : x.outcome with
    | error why => exact ⟨bare, hshows why houtcome, Activity.withoutStatus_of_none hbare⟩
    | ok payload =>
        rw [hstep, houtcome]
        obtain ⟨sheet, hshown, hsame⟩ := describes_of_isStatus (s := s.withdraw number)
          (hwell payload houtcome) (hstatus payload houtcome) hsheet htext x.owner
          x.activity.control
        exact ⟨sheet, hshown.of_withdraw, hsame⟩

end Session

end

namespace Session

attribute [local instance] Client.plain

theorem file_is_shown_iff_of_permission :
    let settings := { Settings.default with gateway := "http://nn:9870" }
    let located : Reply := .response ⟨200, "OK", [], Utf8.encode
      "\x7b\"LocatedBlocks\":\x7b\"fileLength\":0,\"locatedBlocks\":[]\x7d\x7d"⟩
    let described : Reply := .response ⟨200, "OK", [], Utf8.encode
      "\x7b\"FileStatus\":\x7b\"permission\":\"644\"\x7d\x7d"⟩
    let payload : Value := .object [("fileLength", .int 0), ("locatedBlocks", .list [])]
    let events : List Event := [.openFile 0 "/f", .reply 1 located]
    let s := (opening settings "").run events
    (∃ x, s.heard? (.reply 2 described) = some x ∧
      x.activity.phase = .describing "/f" payload) ∧
    BlockMap.ofPayload payload = .ok ⟨0, []⟩ ∧
    ∃ sheet, s.ShowsFile (s.step (.reply 2 described)) 0 sheet := by
  intro settings located described payload events s
  let status : Value := .object [("permission", .str "644")]
  let x : Hearing := ⟨0, ⟨none, .describing "/f" payload⟩, 0, .ok status⟩
  have hheard : s.heard? (.reply 2 described) = some x := by
    have hparts : (s.heard? (.reply 2 described)).map
        (fun y => (y.owner, y.activity, y.slot, y.outcome)) =
          some (x.owner, x.activity, x.slot, x.outcome) := by decide +kernel
    obtain ⟨⟨owner, a, slot, o⟩, hy, heq⟩ := Option.map_eq_some_iff.mp hparts
    cases heq
    exact hy
  have hmap : BlockMap.ofPayload payload = .ok ⟨0, []⟩ := by decide +kernel
  have hrenders (f : FileSheet)
      (hf : Activity.sheetOf settings "/f" payload none = .ok f) :
      ∃ text, (Page.file f).text = .ok text := by
    have hpage : ((Activity.sheetOf settings "/f" payload none).bind
        fun f => (Page.file f).text).isOk = true := by decide +kernel
    rw [hf] at hpage
    cases htext : (Page.file f).text with
    | ok text => exact ⟨text, rfl⟩
    | error why => simp [Except.bind, htext, Except.isOk, Except.toBool] at hpage
  obtain ⟨bare, -, -, hshown, -⟩ :=
    file_is_shown_iff settings "" events hheard rfl hmap hrenders
  obtain ⟨sheet, hsheet, -⟩ := hshown.mpr fun given hgiven => by
    obtain rfl : status = given := Except.ok.inj hgiven
    refine ⟨_, rfl, ?_, fun n hn => ?_⟩
    · simp only [Entry.numbers, List.forall_mem_cons]
      refine ⟨⟨644, by decide +kernel⟩, ⟨0, rfl⟩, ⟨0, rfl⟩, ⟨0, rfl⟩, ⟨0, rfl⟩,
        fun _ hnone => absurd hnone List.not_mem_nil⟩
    · have hbits : n = 644 := by
        have hread : (Value.member [("permission", .str "644")] "permission"
            (.str "0")).asInteger = .ok 644 := by decide +kernel
        exact Except.ok.inj (hn.symm.trans hread)
      exact hbits ▸ Permission.not_isNoPermission_iff.mpr ⟨644, rfl, by decide, by decide⟩
  exact ⟨⟨x, hheard, rfl⟩, hmap, sheet, hsheet⟩

/-- The status is null, and the file is not shown although its blocks are known. -/
theorem null_status_raises :
    let settings := { Settings.default with gateway := "http://nn:9870" }
    let located : Reply := .response ⟨200, "OK", [], Utf8.encode
      "\x7b\"LocatedBlocks\":\x7b\"fileLength\":0,\"locatedBlocks\":[]\x7d\x7d"⟩
    let refused : Reply := .response ⟨404, "", [], []⟩
    let described : Reply := .response ⟨200, "OK", [], Utf8.encode "\x7b\"FileStatus\":null\x7d"⟩
    let s := (opening settings "").run [.openFile 0 "/f", .reply 1 located]
    let t := s.step (.reply 2 described)
    t.ended = [(0, .aborted (.single (.noMethod .null "get")))] ∧
      t.console.screen.shown = none ∧
      ((s.step (.reply 2 refused)).console.screen.shown.map Page.name) = some "file-info" := by
  decide +kernel

end Session

end HdfsBrowser
