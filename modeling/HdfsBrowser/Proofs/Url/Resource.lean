import HdfsBrowser.Proofs.Url.Components
import HdfsBrowser.Proofs.Url.Dots

/-!
# The resource of an address

The resource is what the path of an address stands for.  It is the text that
followed the authority exactly when that text is literal: without a mark, an
escape or a dot segment.  All else is shorter than what was written, because
every mark, escape and dot segment takes characters away.
-/

namespace HdfsBrowser.Url

/-- What the path of an address stands for. -/
def resource (text : String) : String :=
  Utf8.decodeLossy (Percent.decode (cut text).path.toList)

def pathChars (rest : List Char) : List Char :=
  (Text.cutAtFirst '?' (Text.cutAtFirst '#' rest).1).1

/-- Nothing in the text means anything but itself. -/
def IsLiteral (cs : List Char) : Prop :=
  BeforeQuery cs ∧ Percent.hasEscape cs = false ∧ hasDots cs = false

instance (cs : List Char) : Decidable (IsLiteral cs) :=
  inferInstanceAs (Decidable (BeforeQuery cs ∧ Percent.hasEscape cs = false ∧ hasDots cs = false))

/-! ## Paths that stand for themselves -/

theorem pathChars_append {cs : List Char} (h : BeforeQuery cs) (rest : List Char) :
    pathChars (cs ++ rest) = cs ++ pathChars rest := by
  rw [pathChars, Text.cutAtFirst_append h.2, Text.cutAtFirst_append h.1]
  rfl

theorem pathChars_query (rest : List Char) : pathChars ('?' :: rest) = [] := by
  rw [pathChars, Text.cutAtFirst_cons_of_ne (by decide)]
  simp [Text.cutAtFirst]

theorem pathChars_spec (rest : List Char) :
    (BeforeQuery rest ∧ pathChars rest = rest) ∨
      (¬ BeforeQuery rest ∧ (pathChars rest).length < rest.length) := by
  rcases Text.cutAtFirst_fst '#' rest with ⟨hfragment, hsame⟩ | ⟨hfragment, hshorter⟩
  · rw [pathChars, hsame]
    rcases Text.cutAtFirst_fst '?' rest with ⟨hquery, hsame⟩ | ⟨hquery, hshorter⟩
    · exact .inl ⟨⟨hquery, hfragment⟩, hsame⟩
    · exact .inr ⟨fun h => h.1 hquery, hshorter⟩
  · refine .inr ⟨fun h => h.2 hfragment, ?_⟩
    rw [pathChars]
    rcases Text.cutAtFirst_fst '?' (Text.cutAtFirst '#' rest).1 with ⟨-, hsame⟩ | ⟨-, hless⟩
    · rwa [hsame]
    · exact Nat.lt_trans hless hshorter

theorem keepsEscapes_pathSafe : Percent.KeepsEscapes Percent.pathSafe where
  percent := by decide
  hex := fun _ h => Percent.visibleExcept_of_unreserved (by decide) (Percent.unreserved_of_isHex h)

def denoted (rest : List Char) : String :=
  Utf8.decodeLossy (Percent.decode (Percent.encode Percent.pathSafe (removeDots (pathChars rest))))

theorem denoted_of_isLiteral {rest : List Char} (h : IsLiteral rest) :
    denoted rest = String.ofList rest := by
  obtain ⟨hbefore, hescape, hdots⟩ := h
  have hpath : pathChars rest = rest := by
    rcases pathChars_spec rest with ⟨-, hsame⟩ | ⟨hmark, -⟩
    · exact hsame
    · exact absurd hbefore hmark
  have hbytes : Percent.decode rest = Utf8.encode (String.ofList rest) := by
    rw [Percent.decode_of_not_hasEscape hescape, Utf8.encode, String.toList_ofList]
  rw [denoted, Percent.decode_encode keepsEscapes_pathSafe, hpath,
    removeDots_of_not_hasDots hdots, hbytes, Utf8.decodeLossy_encode]

theorem length_denoted {rest : List Char} (h : ¬ IsLiteral rest) :
    (denoted rest).length < rest.length := by
  have hdecoded : (denoted rest).length =
      (Utf8.pieces (Percent.decode (removeDots (pathChars rest)))).length := by
    rw [denoted, Percent.decode_encode keepsEscapes_pathSafe, Utf8.decodeLossy,
      String.length_ofList, Utf8.lossyChars, List.length_map]
  have hescapes := Percent.length_pieces_decode (removeDots (pathChars rest))
  have hdots := length_removeDots (pathChars rest)
  rcases pathChars_spec rest with ⟨hbefore, hsame⟩ | ⟨-, hshorter⟩
  · rw [hsame] at hdecoded hescapes hdots
    cases hhas : hasDots rest with
    | true =>
        rw [hhas, Bool.toNat_true] at hdots
        omega
    | false =>
        rw [removeDots_of_not_hasDots hhas] at hdecoded hescapes
        cases hescape : Percent.hasEscape rest with
        | true =>
            rw [hescape, Bool.toNat_true] at hescapes
            omega
        | false => exact absurd ⟨hbefore, hescape, hhas⟩ h
  · omega

theorem denoted_eq_iff (rest : List Char) : denoted rest = String.ofList rest ↔ IsLiteral rest := by
  constructor
  · intro hsame
    by_contra hliteral
    have hshorter := length_denoted hliteral
    rw [hsame, String.length_ofList] at hshorter
    exact Nat.lt_irrefl _ hshorter
  · exact denoted_of_isLiteral

/-! ## Addresses with a scheme and an authority -/

theorem cutScheme_http (rest : List Char) :
    cutScheme ("http:".toList ++ rest) = ("http".toList, rest) := rfl

theorem cutAuthority_append {authority rest : List Char} (h : Host.StaysInside authority)
    (hrest : ∀ c ∈ rest.head?, Host.endsAuthority c = true) :
    cutAuthority ("//".toList ++ (authority ++ rest)) = (authority, rest) := by
  have hinside : ∀ c ∈ authority, (!(c == '/' || c == '?' || c == '#')) = true := fun c hc => by
    simpa [Host.endsAuthority] using h c hc
  show (List.takeWhile _ (authority ++ rest), List.dropWhile _ (authority ++ rest)) = _
  rw [List.takeWhile_append_of_pos hinside, List.dropWhile_append_of_pos hinside]
  cases rest with
  | nil => simp
  | cons c rest =>
      have hend : (!(c == '/' || c == '?' || c == '#')) = false :=
        congrArg (fun b => !b) (hrest c rfl)
      rw [List.takeWhile_cons_of_neg (by simp [hend]), List.dropWhile_cons_of_neg (by simp [hend]),
        List.append_nil]

def httpParts (authority rest : List Char) : Parts where
  scheme := "http"
  user := String.ofList (cutUser authority).1
  host := String.ofList (cutHost (cutUser authority).2).1
  port := String.ofList (cutHost (cutUser authority).2).2
  path := String.ofList (pathChars rest)
  query := (Text.cutAtFirst '?' (Text.cutAtFirst '#' rest).1).2.map String.ofList
  fragment := (Text.cutAtFirst '#' rest).2.map String.ofList

theorem cut_http {s : String} {authority rest : List Char}
    (hs : s.toList = "http:".toList ++ ("//".toList ++ (authority ++ rest)))
    (h : Host.StaysInside authority) (hrest : ∀ c ∈ rest.head?, Host.endsAuthority c = true) :
    cut s = httpParts authority rest := by
  unfold cut
  rw [hs, cutScheme_http]
  dsimp only
  rw [cutAuthority_append h hrest]
  rfl

theorem endsAuthority_head_path {rest : List Char} (hslash : rest.head? = some '/')
    (tail : List Char) :
    ∀ c ∈ (Percent.encode Percent.pathSafe (removeDots (pathChars rest)) ++ '?' :: tail).head?,
      Host.endsAuthority c = true := by
  obtain ⟨rest, rfl⟩ : ∃ cs, rest = '/' :: cs := by
    cases rest with
    | nil => cases hslash
    | cons c cs => exact ⟨cs, by rw [Option.some.inj hslash]⟩
  have hpath : pathChars ('/' :: rest) = '/' :: pathChars rest :=
    pathChars_append (show BeforeQuery ['/'] by decide) rest
  rw [hpath]
  intro c hc
  rcases removeDots_cons_slash (pathChars rest) with hnil | ⟨kept, hkept⟩
  · rw [hnil] at hc
    obtain rfl : '?' = c := by simpa using hc
    rfl
  · rw [hkept, Percent.encode_cons_of_safe (by decide)] at hc
    obtain rfl : '/' = c := by simpa using hc
    rfl

theorem authority_ne_empty {u : Url} (h : u.host ≠ "") : u.authority ≠ "" := by
  intro hempty
  have hhost : u.hostText = "" := by
    simp only [authority, String.append_eq_empty_iff] at hempty
    exact hempty.1.2
  unfold hostText at hhost
  split at hhost
  · simp at hhost
  · exact h hhost

theorem resource_text [Client] {u : Url} {authority rest : List Char} {query : String}
    (hu : Describes { httpParts authority rest with query := some query } u)
    (hauthority : Host.StaysInside authority) (hslash : rest.head? = some '/')
    (hhost : u.host ≠ "") : resource u.text = denoted rest := by
  have hscheme : u.scheme = "http" :=
    hu.scheme.trans (show String.ofList ("http".toList.map Char.toLower) = "http" by decide)
  have hinside : Host.StaysInside (httpParts authority rest).host.toList := by
    rw [httpParts, String.toList_ofList]
    exact (hauthority.of_subset (cutUser_subset _)).of_subset (cutHost_subset _)
  have hclosed : IsClosed u := hu.isClosed (show Host.StaysInside "http".toList by decide) hinside
  have hpath : u.path.toList =
      Percent.encode Percent.pathSafe (removeDots (pathChars rest)) := by
    rw [hu.path, hscheme, String.toList_ofList]
    simp [httpParts]
  have htext : u.text.toList = "http:".toList ++ ("//".toList ++ (u.authority.toList ++
      (u.path.toList ++ '?' :: ((encodePart Percent.querySafe query).toList ++
        (marked "#" u.fragment).toList)))) := by
    rw [text, hu.query, hscheme, if_neg (by decide), if_neg (authority_ne_empty hhost)]
    simp [marked]
  have hcut := cut_http htext hclosed.authority (by
    rw [hpath]
    exact endsAuthority_head_path hslash _)
  rw [resource, hcut, httpParts, String.toList_ofList, pathChars_append hclosed.path,
    pathChars_query, List.append_nil, hpath, denoted]

/-! ## Addresses of the same origin -/

theorem exists_describes [Client] {authority rest : List Char} {gateway : Url} (query : String)
    (hgateway : Describes (httpParts authority []) gateway) (hhost : gateway.host ≠ "")
    (hslash : rest.head? = some '/') :
    ∃ u, Describes { httpParts authority rest with query := some query } u ∧ u.host ≠ "" := by
  have hrooted : (String.ofList (pathChars rest)).toList.head? = some '/' := by
    cases rest with
    | nil => cases hslash
    | cons c cs =>
        obtain rfl : c = '/' := Option.some.inj hslash
        rw [String.toList_ofList]
        exact congrArg List.head? (pathChars_append (show BeforeQuery ['/'] by decide) cs)
  have hauthority : gateway.hasAuthority = true := by simp [hasAuthority, hhost]
  have hallowed : checkPath (gateway.scheme != "") gateway.hasAuthority
      (String.ofList (pathChars rest)).toList = .ok () := by
    rw [hauthority, checkPath, if_pos rfl, hrooted]
    simp
  have hpath : String.ofList (Percent.encode Percent.pathSafe (removeDots (pathChars rest))) =
      String.ofList (Percent.encode Percent.pathSafe
        (if gateway.scheme != "" || gateway.hasAuthority
          then removeDots (String.ofList (pathChars rest)).toList
          else (String.ofList (pathChars rest)).toList)) := by
    rw [hauthority, Bool.or_true, if_pos rfl, String.toList_ofList]
  refine ⟨{ gateway with
    path := String.ofList (Percent.encode Percent.pathSafe (removeDots (pathChars rest)))
    query := some (encodePart Percent.querySafe query)
    fragment := (httpParts authority rest).fragment.map (encodePart Percent.fragmentSafe) },
    ?_, hhost⟩
  exact ⟨hgateway.scheme, hgateway.user, hgateway.host, hgateway.port, hallowed, hpath, rfl, rfl⟩

end HdfsBrowser.Url
