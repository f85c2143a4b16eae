import HdfsBrowser.Client.Plain
import HdfsBrowser.Gateway.Call
import HdfsBrowser.Proofs.Path.Normal
import HdfsBrowser.Proofs.Url.Form
import HdfsBrowser.Proofs.Url.Resource

/-!
# Which path a call asks for

The path of a call is written into the text of its address as it is.  So the
address is that of another path when the path holds a mark of an address, an
escape or a dot segment, and it is that of the path itself otherwise.
-/

namespace HdfsBrowser

theorem Call.isAllowed_query (pairs : List (String × String)) :
    Url.IsAllowed (Form.query pairs) ↔ (Form.query pairs).length ≤ Url.lengthLimit := by
  refine ⟨And.left, fun hlength => ⟨hlength, fun c hc => ?_⟩⟩
  obtain ⟨hlow, hhigh, -⟩ := (Percent.visibleExcept_iff _ c).mp (Form.querySafe_of_mem_query hc)
  have h1 : ¬ c.toNat < 0x20 := by omega
  have h2 : ¬ c.toNat = 0x7F := by omega
  simp [Url.isControl, h1, h2]

section

variable [Client]

/-- The gateway is a host that is reached over HTTP, and the service is in its usual place. -/
structure Settings.IsDirect (settings : Settings) (authority : String) (gateway : Url) : Prop where
  service : settings.service = Settings.default.service
  text : settings.gateway = "http://" ++ authority
  inside : Host.StaysInside authority.toList
  parses : Url.parse settings.gateway = .ok gateway
  host : gateway.host ≠ ""

namespace Settings.IsDirect

variable {settings : Settings} {authority : String} {gateway : Url}

theorem describes (h : settings.IsDirect authority gateway) :
    Url.Describes (Url.httpParts authority.toList []) gateway := by
  have hlist : settings.gateway.toList =
      "http:".toList ++ ("//".toList ++ (authority.toList ++ [])) := by
    rw [h.text]
    simp
  rw [← Url.cut_http hlist h.inside (by simp)]
  exact ((Url.parse_eq_ok_iff _ _).mp h.parses).2

theorem authority_ne_nil (h : settings.IsDirect authority gateway) : authority.toList ≠ [] := by
  intro hnil
  have hempty : Host.parse (Url.httpParts [] []).host = .ok "" := rfl
  have hparse := h.describes.host
  rw [hnil, hempty] at hparse
  exact h.host (Except.ok.inj hparse).symm

theorem dropTrailing (h : settings.IsDirect authority gateway) :
    Text.dropTrailing '/' settings.gateway = settings.gateway := by
  obtain hnil | ⟨before, last, hlast⟩ := List.eq_nil_or_concat authority.toList
  · exact absurd hnil h.authority_ne_nil
  · have hlist : settings.gateway.toList = ("http://".toList ++ before) ++ [last] := by
      simp [h.text, hlast]
    have hends := h.inside last (by simp [hlast])
    have hne : ¬ (last == '/') = true := by
      intro heq
      rw [beq_iff_eq.mp heq] at hends
      exact absurd hends (by decide)
    rw [Text.dropTrailing, hlist, Path.trimEndBy_eq_rdropWhile,
      List.rdropWhile_concat_neg (· == '/') _ _ hne, ← hlist, String.ofList_toList]

end Settings.IsDirect

namespace Call

variable {settings : Settings} {authority : String} {gateway : Url}

/-! ## Addresses -/

theorem toList_base (h : settings.IsDirect authority gateway) (path : String) :
    (base settings path).toList = "http:".toList ++ ("//".toList ++
      (authority.toList ++ (settings.service.toList ++ path.toList))) := by
  rw [base, h.dropTrailing, h.text]
  simp

theorem cut_base (h : settings.IsDirect authority gateway) (path : String) :
    Url.cut (base settings path) =
      Url.httpParts authority.toList (settings.service.toList ++ path.toList) := by
  refine Url.cut_http (toList_base h path) h.inside ?_
  rw [h.service]
  intro c hc
  obtain rfl : '/' = c := by simpa [Settings.default] using hc
  rfl

theorem isAllowed_base (h : settings.IsDirect authority gateway) {path : String}
    (hpath : ∀ c ∈ path.toList, Url.isControl c = false) :
    Url.IsAllowed (base settings path) ↔ (base settings path).length ≤ Url.lengthLimit := by
  refine ⟨And.left, fun hlength => ⟨hlength, fun c hc => ?_⟩⟩
  have hgateway := ((Url.parse_eq_ok_iff _ _).mp h.parses).1.2
  have hservice : ∀ c ∈ settings.service.toList, Url.isControl c = false := by
    rw [h.service]
    exact (Url.findControl?_eq_none_iff 0 _).mp (by decide)
  rw [base, h.dropTrailing, String.toList_append, String.toList_append, List.mem_append,
    List.mem_append] at hc
  rcases hc with (hc | hc) | hc
  · exact hgateway c hc
  · exact hservice c hc
  · exact hpath c hc

theorem head?_service (h : settings.IsDirect authority gateway) (cs : List Char) :
    (settings.service.toList ++ cs).head? = some '/' := by
  rw [h.service]
  rfl

theorem resource_address (h : settings.IsDirect authority gateway) {c : Call} {text : String}
    (haddress : c.address settings = .ok text) :
    Url.resource text = Url.denoted (settings.service.toList ++ c.path.toList) := by
  cases hurl : c.url settings with
  | error e => simp [address, hurl, Except.map] at haddress
  | ok u =>
      obtain rfl : u.text = text := by simpa [address, hurl, Except.map] using haddress
      obtain ⟨-, -, hu⟩ := (Url.parseWithQuery_eq_ok_iff _ _ _).mp hurl
      rw [cut_base h] at hu
      have hhost : u.host = gateway.host :=
        Except.ok.inj (hu.host.symm.trans h.describes.host)
      exact Url.resource_text hu h.inside (head?_service h _) (hhost ▸ h.host)

theorem exists_address_iff (h : settings.IsDirect authority gateway) {c : Call}
    (hpath : ∀ x ∈ c.path.toList, Url.isControl x = false) :
    (∃ text, c.address settings = .ok text) ↔
      (base settings c.path).length ≤ Url.lengthLimit ∧
        (Form.query (c.query settings)).length ≤ Url.lengthLimit := by
  rw [← isAllowed_base h hpath, ← isAllowed_query]
  constructor
  · rintro ⟨text, haddress⟩
    cases hurl : c.url settings with
    | error e => simp [address, hurl, Except.map] at haddress
    | ok u =>
        obtain ⟨hbase, hquery, -⟩ := (Url.parseWithQuery_eq_ok_iff _ _ _).mp hurl
        exact ⟨hbase, hquery⟩
  · rintro ⟨hbase, hquery⟩
    obtain ⟨u, hu, -⟩ := Url.exists_describes (Form.query (c.query settings)) h.describes h.host
      (head?_service h c.path.toList)
    rw [← cut_base h] at hu
    have hurl : c.url settings = .ok u :=
      (Url.parseWithQuery_eq_ok_iff _ _ _).mpr ⟨hbase, hquery, hu⟩
    exact ⟨u.text, by rw [address, hurl]; rfl⟩

/-! ## Literal paths -/

theorem isLiteral_service_append (h : settings.IsDirect authority gateway) {path : String}
    (hnormal : Path.normalize path = path) :
    Url.IsLiteral (settings.service.toList ++ path.toList) ↔ Url.IsLiteral path.toList := by
  obtain ⟨rest, hrest⟩ := Path.toList_of_normal hnormal
  have hbefore : Url.BeforeQuery Settings.default.service.toList := by decide
  have hpercent : '%' ∉ Settings.default.service.toList := by decide
  have hdots : Url.hasDots Settings.default.service.toList = false := by decide
  have hempty : Url.hasDots [] = false := by decide
  have hmarks : Url.BeforeQuery (Settings.default.service.toList ++ path.toList) ↔
      Url.BeforeQuery path.toList := by
    refine ⟨fun hall => ⟨fun hmem => hall.1 (List.mem_append_right _ hmem), fun hmem =>
      hall.2 (List.mem_append_right _ hmem)⟩, hbefore.append⟩
  have hsegments : Url.hasDots (Settings.default.service.toList ++ path.toList) =
      Url.hasDots path.toList := by
    have hroot : Url.hasDots ('/' :: rest) = (Url.hasDots [] || Url.hasDots rest) :=
      Url.hasDots_append_slash [] rest
    rw [hrest, Url.hasDots_append_slash, hroot, hdots, hempty]
  rw [h.service, Url.IsLiteral, Url.IsLiteral, hmarks, hsegments,
    Percent.hasEscape_append hpercent]

theorem resource_eq_path_iff (h : settings.IsDirect authority gateway) {c : Call} {text : String}
    (hnormal : Path.normalize c.path = c.path) (haddress : c.address settings = .ok text) :
    Url.resource text = settings.service ++ c.path ↔ Url.IsLiteral c.path.toList := by
  have hwhole : settings.service ++ c.path =
      String.ofList (settings.service.toList ++ c.path.toList) := by
    rw [← String.toList_append, String.ofList_toList]
  rw [resource_address h haddress, hwhole, Url.denoted_eq_iff, isLiteral_service_append h hnormal]

/-- A call has an address for its own path exactly when the path is literal and fits, and two
calls on literal paths have addresses of one resource only when the paths are the same. -/
theorem address_of_path_iff (h : settings.IsDirect authority gateway) (c : Call)
    (hnormal : Path.normalize c.path = c.path)
    (hcontrol : ∀ x ∈ c.path.toList, Url.isControl x = false) :
    ((∃ text, c.address settings = .ok text ∧
        Url.resource text = settings.service ++ c.path) ↔
      Url.IsLiteral c.path.toList ∧ (base settings c.path).length ≤ Url.lengthLimit ∧
        (Form.query (c.query settings)).length ≤ Url.lengthLimit) ∧
    ∀ (d : Call) (s t : String), Path.normalize d.path = d.path → Url.IsLiteral c.path.toList →
      Url.IsLiteral d.path.toList → c.address settings = .ok s → d.address settings = .ok t →
        Url.resource s = Url.resource t → c.path = d.path := by
  constructor
  · rw [← exists_address_iff h hcontrol]
    constructor
    · rintro ⟨text, haddress, hresource⟩
      exact ⟨(resource_eq_path_iff h hnormal haddress).mp hresource, text, haddress⟩
    · rintro ⟨hliteral, text, haddress⟩
      exact ⟨text, haddress, (resource_eq_path_iff h hnormal haddress).mpr hliteral⟩
  · intro d s t hnormal' hc hd hs ht hsame
    rw [(resource_eq_path_iff h hnormal hs).mpr hc,
      (resource_eq_path_iff h hnormal' ht).mpr hd] at hsame
    exact (String.append_right_inj _).mp hsame

end Call

end

namespace Call

attribute [local instance] Client.plain

def localGateway : Url := ⟨"http", "", "localhost", some 9870, "", none, none⟩

theorem isDirect_default : Settings.default.IsDirect "localhost:9870" localGateway where
  service := rfl
  text := by decide
  inside := by decide
  parses := by decide
  host := by decide

theorem address_of_path_iff_of_sign :
    Settings.default.IsDirect "localhost:9870" localGateway ∧
      Path.normalize "/a b/..c%é" = "/a b/..c%é" ∧
      (∀ x ∈ "/a b/..c%é".toList, Url.isControl x = false) ∧
      ∃ text, (reading "/a b/..c%é" none).address Settings.default = .ok text ∧
        Url.resource text = "/webhdfs/v1/a b/..c%é" := by
  have hcontrol : ∀ x ∈ "/a b/..c%é".toList, Url.isControl x = false :=
    (Url.findControl?_eq_none_iff 0 _).mp (by decide)
  refine ⟨isDirect_default, by decide, hcontrol, ?_⟩
  exact (address_of_path_iff isDirect_default (reading "/a b/..c%é" none) (by decide)
    hcontrol).1.mpr (by decide)

/-- A question mark in the path asks for another path. -/
theorem resource_of_question_mark :
    Path.normalize "/a?b" = "/a?b" ∧
      (reading "/a?b" none).address { Settings.default with gateway := "http://nn:9870" } =
        .ok "http://nn:9870/webhdfs/v1/a?op=OPEN" ∧
      (reading "/a" none).address { Settings.default with gateway := "http://nn:9870" } =
        .ok "http://nn:9870/webhdfs/v1/a?op=OPEN" ∧
      Url.resource "http://nn:9870/webhdfs/v1/a?op=OPEN" = "/webhdfs/v1/a" ∧
      "/webhdfs/v1/a" ≠ Settings.default.service ++ "/a?b" := by
  refine ⟨by decide, by decide, by decide, ?_, by decide⟩
  have hpath : (Url.cut "http://nn:9870/webhdfs/v1/a?op=OPEN").path = "/webhdfs/v1/a" := by decide
  have hbytes : Percent.decode "/webhdfs/v1/a".toList = Utf8.encode "/webhdfs/v1/a" :=
    Percent.decode_of_not_hasEscape (by decide)
  rw [Url.resource, hpath, hbytes, Utf8.decodeLossy_encode]

end Call

end HdfsBrowser
