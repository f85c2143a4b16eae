import HdfsBrowser.Proofs.Computation
import HdfsBrowser.Proofs.Url.Host
import HdfsBrowser.Url.Parser
import Mathlib.Data.List.TakeWhile

/-!
# Components of addresses

An address is described by its parts, each in its own writing.  In its text
only the mark before the query is a question mark outside of the query and the
fragment, so cutting the text finds the same query again.
-/

namespace HdfsBrowser.Url

/-! ## Checked texts -/

theorem findControl?_eq_none_iff (index : Nat) (cs : List Char) :
    findControl? index cs = none ↔ ∀ c ∈ cs, isControl c = false := by
  induction cs generalizing index with
  | nil => simp [findControl?]
  | cons c cs ih =>
      rw [findControl?, List.forall_mem_cons]
      cases hcontrol : isControl c with
      | true => simp
      | false => simpa using ih (index + 1)

def IsAllowed (s : String) : Prop :=
  s.length ≤ lengthLimit ∧ ∀ c ∈ s.toList, isControl c = false

theorem checked_eq_ok_iff (s : String) (long : UrlFault) (control : Char → Nat → UrlFault) :
    (if s.length > lengthLimit then .error long
      else
        match findControl? 0 s.toList with
        | some (c, index) => .error (control c index)
        | none => .ok () : Except UrlFault Unit) = .ok () ↔ IsAllowed s := by
  unfold IsAllowed
  rw [← findControl?_eq_none_iff 0]
  split
  · simp [Nat.not_le.mpr ‹_›]
  · cases findControl? 0 s.toList with
    | none => simp [Nat.not_lt.mp ‹_›]
    | some found => simp

theorem checkText_eq_ok_iff (s : String) : checkText s = .ok () ↔ IsAllowed s :=
  checked_eq_ok_iff s _ _

theorem checkPart_eq_ok_iff (name s : String) : checkPart name s = .ok () ↔ IsAllowed s :=
  checked_eq_ok_iff s _ _

/-! ## Parts and their address -/

def hasAuthority (u : Url) : Bool := u.user != "" || u.host != "" || u.port.isSome

structure Describes [Client] (p : Parts) (u : Url) : Prop where
  scheme : u.scheme = String.ofList (p.scheme.toList.map Char.toLower)
  user : u.user = encodePart Percent.userSafe p.user
  host : Host.parse p.host = .ok u.host
  port : parsePort p.scheme p.port = .ok u.port
  allowed : checkPath (u.scheme != "") u.hasAuthority p.path.toList = .ok ()
  path : u.path = String.ofList (Percent.encode Percent.pathSafe
    (if u.scheme != "" || u.hasAuthority then removeDots p.path.toList else p.path.toList))
  query : u.query = p.query.map (encodePart Percent.querySafe)
  fragment : u.fragment = p.fragment.map (encodePart Percent.fragmentSafe)

theorem exists_unit {p : Unit → Prop} : (∃ a, p a) ↔ p () :=
  ⟨fun ⟨_, h⟩ => h, fun h => ⟨(), h⟩⟩

theorem ofParts_eq_ok_iff [Client] (p : Parts) (u : Url) : ofParts p = .ok u ↔ Describes p u := by
  unfold ofParts
  simp only [bind_eq_ok_iff, exists_unit]
  constructor
  · rintro ⟨host, hhost, port, hport, hallowed, hu⟩
    cases hu
    exact ⟨rfl, rfl, hhost, hport, hallowed, rfl, rfl, rfl⟩
  · rintro ⟨hscheme, huser, hhost, hport, hallowed, hpath, hquery, hfragment⟩
    refine ⟨u.host, hhost, u.port, hport, ?_, ?_⟩
    · rw [← hscheme, ← huser]
      exact hallowed
    · rw [← hscheme, ← huser]
      obtain ⟨scheme, user, host, port, path, query, fragment⟩ := u
      simp_all [hasAuthority]

theorem parse_eq_ok_iff [Client] (s : String) (u : Url) :
    parse s = .ok u ↔ IsAllowed s ∧ Describes (cut s) u := by
  simp only [parse, bind_eq_ok_iff, checkText_eq_ok_iff, ofParts_eq_ok_iff, exists_unit]

theorem parseWithQuery_eq_ok_iff [Client] (s query : String) (u : Url) :
    parseWithQuery s query = .ok u ↔
      IsAllowed s ∧ IsAllowed query ∧ Describes { cut s with query := some query } u := by
  simp only [parseWithQuery, bind_eq_ok_iff, checkText_eq_ok_iff, checkPart_eq_ok_iff,
    ofParts_eq_ok_iff, exists_unit]

/-! ## What stands before the query -/

def BeforeQuery (cs : List Char) : Prop := '?' ∉ cs ∧ '#' ∉ cs

instance (cs : List Char) : Decidable (BeforeQuery cs) :=
  inferInstanceAs (Decidable ('?' ∉ cs ∧ '#' ∉ cs))

theorem BeforeQuery.append {cs ds : List Char} (hcs : BeforeQuery cs) (hds : BeforeQuery ds) :
    BeforeQuery (cs ++ ds) := by
  constructor
  · intro h
    exact (List.mem_append.mp h).elim hcs.1 hds.1
  · intro h
    exact (List.mem_append.mp h).elim hcs.2 hds.2

theorem beforeQuery_of_staysInside {cs : List Char} (h : Host.StaysInside cs) :
    BeforeQuery cs :=
  ⟨fun hmem => by simpa [Host.endsAuthority] using h '?' hmem,
    fun hmem => by simpa [Host.endsAuthority] using h '#' hmem⟩

theorem beforeQuery_encode {safe : Char → Bool} (hquery : safe '?' = false)
    (hfragment : safe '#' = false) (cs : List Char) : BeforeQuery (Percent.encode safe cs) := by
  constructor
  · intro hmem
    rcases Percent.mem_encode hmem with ⟨-, hsafe⟩ | hescape
    · simp [hquery] at hsafe
    · exact absurd hescape (by decide)
  · intro hmem
    rcases Percent.mem_encode hmem with ⟨-, hsafe⟩ | hescape
    · simp [hfragment] at hsafe
    · exact absurd hescape (by decide)

theorem cutScheme_spec (cs : List Char) :
    ∃ skipped, cs = skipped ++ (cutScheme cs).2 ∧ Host.StaysInside skipped ∧
      (cutScheme cs).1 ⊆ skipped := by
  have hkind : Host.AvoidsMarks isSchemeChar := ⟨by decide, by decide, by decide⟩
  have hname : Host.StaysInside (cs.takeWhile isSchemeChar) := fun c hc =>
    hkind.endsAuthority (List.mem_takeWhile_imp hc)
  have hcolon : Host.StaysInside [':'] := by decide
  have hnone : ∃ skipped, cs = skipped ++ cs ∧ Host.StaysInside skipped ∧ [] ⊆ skipped :=
    ⟨[], rfl, Host.staysInside_nil, List.Subset.refl _⟩
  have hwhole := List.takeWhile_append_dropWhile (p := isSchemeChar) (l := cs)
  have hdrop : cs.drop (cs.takeWhile isSchemeChar).length = cs.dropWhile isSchemeChar :=
    (congrArg (List.drop _) hwhole.symm).trans List.drop_left
  unfold cutScheme
  dsimp only
  rw [hdrop]
  generalize cs.takeWhile isSchemeChar = name at *
  split
  · next rest hrest =>
      rw [hrest] at hwhole
      split
      · exact ⟨[':'], hwhole.symm, hcolon, List.nil_subset _⟩
      · split
        · refine ⟨_, ?_, hname.append hcolon, List.subset_append_left _ _⟩
          rw [List.append_assoc, ← hwhole]
          rfl
        · exact hnone
  · exact hnone

theorem cutAuthority_spec (cs : List Char) :
    ∃ skipped, cs = skipped ++ (cutAuthority cs).1 ++ (cutAuthority cs).2 ∧
      BeforeQuery skipped ∧ Host.StaysInside (cutAuthority cs).1 := by
  unfold cutAuthority
  split
  · next rest =>
      refine ⟨['/', '/'], ?_, by decide, ?_⟩
      · simp
      · intro c hc
        simpa [Host.endsAuthority] using List.mem_takeWhile_imp hc
  · exact ⟨[], rfl, by decide, Host.staysInside_nil⟩

theorem cut_query (s : String) :
    (cut s).query =
      (Text.cutAtFirst '?' (Text.cutAtFirst '#' s.toList).1).2.map String.ofList := by
  obtain ⟨scheme, hscheme, hinside, -⟩ := cutScheme_spec s.toList
  obtain ⟨slashes, hslashes, hbefore, hauthority⟩ := cutAuthority_spec (cutScheme s.toList).2
  have hfree : BeforeQuery (scheme ++ (slashes ++ (cutAuthority (cutScheme s.toList).2).1)) :=
    (beforeQuery_of_staysInside hinside).append
      (hbefore.append (beforeQuery_of_staysInside hauthority))
  have hwhole : s.toList = (scheme ++ (slashes ++ (cutAuthority (cutScheme s.toList).2).1)) ++
      (cutAuthority (cutScheme s.toList).2).2 := by
    rw [List.append_assoc, ← hslashes, ← hscheme]
  rw [hwhole, Text.cutAtFirst_append hfree.2, Text.cutAtFirst_append hfree.1]
  rfl

/-! ## Texts of addresses -/

/-- No component holds a mark that would end it early. -/
structure IsClosed (u : Url) : Prop where
  scheme : Host.StaysInside u.scheme.toList
  user : Host.StaysInside u.user.toList
  host : Host.StaysInside u.host.toList
  path : BeforeQuery u.path.toList
  query : ∀ q, u.query = some q → '#' ∉ q.toList

theorem staysInside_lower {cs : List Char} (h : Host.StaysInside cs) :
    Host.StaysInside (cs.map Char.toLower) := by
  intro d hd
  obtain ⟨c, hc, rfl⟩ := List.mem_map.mp hd
  rcases Host.toLower_eq_or c with hsame | hlate
  · rw [hsame]
    exact h c hc
  · exact Host.endsAuthority_of_le hlate

theorem Describes.isClosed [Client] {p : Parts} {u : Url} (h : Describes p u)
    (hscheme : Host.StaysInside p.scheme.toList) (hhost : Host.StaysInside p.host.toList) :
    IsClosed u where
  scheme := by
    rw [h.scheme, String.toList_ofList]
    exact staysInside_lower hscheme
  user := by
    rw [h.user, encodePart, String.toList_ofList]
    exact Host.staysInside_encode ⟨by decide, by decide, by decide⟩ _
  host := Host.staysInside_parse hhost h.host
  path := by
    rw [h.path, String.toList_ofList]
    exact beforeQuery_encode (by decide) (by decide) _
  query := by
    intro q hq
    rw [h.query] at hq
    obtain ⟨given, -, rfl⟩ := Option.map_eq_some_iff.mp hq
    rw [encodePart, String.toList_ofList]
    intro hmem
    rcases Percent.mem_encode hmem with ⟨-, hsafe⟩ | hescape
    · exact absurd hsafe (by decide)
    · exact absurd hescape (by decide)

theorem staysInside_numeral (n : Int) : Host.StaysInside (Numeral.text n).toList := by
  have hkind : Host.AvoidsMarks Char.isDigit := ⟨by decide, by decide, by decide⟩
  have hdigits : ∀ m, Host.StaysInside (Numeral.digits m) := fun m c hc =>
    hkind.endsAuthority (Nat.isDigit_of_mem_toDigits (by decide) (by decide) hc)
  have hsign : Host.StaysInside ['-'] := by decide
  rw [Numeral.text, String.toList_ofList]
  cases n with
  | ofNat m => exact hdigits m
  | negSucc m => exact hsign.append (hdigits (m + 1))

theorem IsClosed.authority {u : Url} (h : IsClosed u) :
    Host.StaysInside u.authority.toList := by
  have huser : Host.StaysInside (if u.user = "" then "" else u.user ++ "@").toList := by
    split
    · decide
    · rw [String.toList_append]
      exact h.user.append (by decide)
  have hhost : Host.StaysInside u.hostText.toList := by
    unfold hostText
    split
    · rw [String.toList_append, String.toList_append]
      have hopen : Host.StaysInside "[".toList := by decide
      exact (hopen.append h.host).append (by decide)
    · exact h.host
  unfold Url.authority
  rw [String.toList_append, String.toList_append]
  refine (huser.append hhost).append ?_
  split
  · rw [String.toList_append]
    have hcolon : Host.StaysInside ":".toList := by decide
    exact hcolon.append (staysInside_numeral _)
  · decide

def head (u : Url) : String :=
  (if u.scheme = "" then "" else u.scheme ++ ":") ++
    (if u.authority = "" then "" else "//" ++ u.authority) ++ u.path

theorem text_eq_head (u : Url) :
    u.text = u.head ++ marked "?" u.query ++ marked "#" u.fragment := rfl

theorem IsClosed.head {u : Url} (h : IsClosed u) : BeforeQuery u.head.toList := by
  have hscheme : BeforeQuery (if u.scheme = "" then "" else u.scheme ++ ":").toList := by
    split
    · decide
    · rw [String.toList_append]
      exact (beforeQuery_of_staysInside h.scheme).append (by decide)
  have hauthority : BeforeQuery (if u.authority = "" then "" else "//" ++ u.authority).toList := by
    split
    · decide
    · rw [String.toList_append]
      have hslashes : BeforeQuery "//".toList := by decide
      exact hslashes.append (beforeQuery_of_staysInside h.authority)
  rw [Url.head, String.toList_append, String.toList_append]
  exact (hscheme.append hauthority).append h.path

theorem cut_text_query {u : Url} {q : String} (h : IsClosed u) (hq : u.query = some q) :
    (cut u.text).query = some q := by
  have hquery : '#' ∉ '?' :: q.toList := by
    simpa using h.query q hq
  have hfirst : (Text.cutAtFirst '#' u.text.toList).1 = u.head.toList ++ '?' :: q.toList := by
    have htext : u.text.toList =
        (u.head.toList ++ '?' :: q.toList) ++ (marked "#" u.fragment).toList := by
      rw [text_eq_head, hq]
      simp [marked]
    have hbefore : '#' ∉ u.head.toList ++ '?' :: q.toList := fun hmem =>
      (List.mem_append.mp hmem).elim h.head.2 hquery
    rw [htext, Text.cutAtFirst_append hbefore]
    cases u.fragment with
    | none => simp [marked, Text.cutAtFirst]
    | some f => simp [marked, Text.cutAtFirst]
  rw [cut_query, hfirst, Text.cutAtFirst_append_cons h.head.1]
  simp

/-! ## Parts of texts -/

theorem staysInside_cut_scheme (s : String) : Host.StaysInside (cut s).scheme.toList := by
  obtain ⟨skipped, -, hinside, hsub⟩ := cutScheme_spec s.toList
  have hscheme := hinside.of_subset hsub
  simpa [cut] using hscheme

theorem cutHost_subset (cs : List Char) : (cutHost cs).1 ⊆ cs := by
  unfold cutHost
  dsimp only
  split
  · exact List.take_subset _ _
  · exact List.takeWhile_subset _

theorem cutUser_subset (cs : List Char) : (cutUser cs).2 ⊆ cs := by
  unfold cutUser
  split
  · intro c hc
    exact List.mem_reverse.mp (List.takeWhile_subset _ (List.mem_reverse.mp hc))
  · exact List.Subset.refl cs

theorem staysInside_cut_host (s : String) : Host.StaysInside (cut s).host.toList := by
  obtain ⟨skipped, -, -, hinside⟩ := cutAuthority_spec (cutScheme s.toList).2
  have hhost := (hinside.of_subset (cutUser_subset _)).of_subset (cutHost_subset _)
  simpa [cut] using hhost

theorem cut_text_query_of_parseWithQuery [Client] {s query : String} {u : Url}
    (h : parseWithQuery s query = .ok u) :
    (cut u.text).query = some (encodePart Percent.querySafe query) := by
  obtain ⟨-, -, hu⟩ := (parseWithQuery_eq_ok_iff s query u).mp h
  have hscheme := staysInside_cut_scheme s
  have hhost := staysInside_cut_host s
  generalize cut s = p at hu hscheme hhost
  exact cut_text_query (hu.isClosed hscheme hhost) hu.query

end HdfsBrowser.Url
