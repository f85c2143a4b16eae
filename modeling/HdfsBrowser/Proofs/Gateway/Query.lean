import HdfsBrowser.Client.Plain
import HdfsBrowser.Gateway.Call
import HdfsBrowser.Proofs.Url.Components
import HdfsBrowser.Proofs.Url.Form

/-!
# What a call asks

The query of the address of a call is read back as the pairs of the call: its
operation, its parameters in order, and the user when there is one.  Nothing in
the path, in a parameter or in the name of the user adds a pair or changes one.
-/

namespace HdfsBrowser.Call

theorem nodup_query {settings : Settings} {c : Call}
    (hparameters : (c.parameters.map Prod.fst).Nodup)
    (hkeys : ∀ key ∈ c.parameters.map Prod.fst, key ≠ "op" ∧ key ≠ "user.name") :
    ((c.query settings).map Prod.fst).Nodup := by
  have hop : "op" ∉ c.parameters.map Prod.fst := fun h => (hkeys _ h).1 rfl
  have hcall : (("op", c.operation.name) :: c.parameters).map Prod.fst |>.Nodup :=
    List.nodup_cons.mpr ⟨hop, hparameters⟩
  have huser : "user.name" ∉ (("op", c.operation.name) :: c.parameters).map Prod.fst := by
    rw [List.map_cons, List.mem_cons, not_or]
    exact ⟨show "user.name" ≠ "op" by decide, fun h => (hkeys _ h).2 rfl⟩
  unfold query
  rw [List.map_append]
  split
  · simpa using hcall
  · refine List.nodup_append.mpr ⟨hcall, by simp, ?_⟩
    intro key hkey other hother heq
    obtain rfl : other = "user.name" := by simpa using hother
    exact huser (heq ▸ hkey)

theorem encodePart_query (pairs : List (String × String)) :
    Url.encodePart Percent.querySafe (Form.query pairs) = Form.query pairs := by
  rw [Url.encodePart, Percent.encode_of_safe fun _ => Form.querySafe_of_mem_query,
    String.ofList_toList]

theorem cut_text_query [Client] {settings : Settings} {c : Call} {text : String}
    (h : c.address settings = .ok text) :
    (Url.cut text).query = some (Form.query (c.query settings)) := by
  cases hurl : c.url settings with
  | error e => simp [address, hurl, Except.map] at h
  | ok u =>
      obtain rfl : u.text = text := by simpa [address, hurl, Except.map] using h
      rw [Url.cut_text_query_of_parseWithQuery hurl, encodePart_query]

theorem shape_of_request [Client] {settings : Settings} {c : Call} {address : String}
    {request : Request} (h : c.request settings = .ok (address, request)) :
    request.method = (if c.operation.isRead then .get else .put) ∧ request.body = c.content := by
  simp only [Call.request, Request.make, bind_eq_ok_iff, Except.ok.injEq, Prod.mk.injEq] at h
  obtain ⟨_, _, _, ⟨_, _, rfl⟩, -, rfl⟩ := h
  exact ⟨rfl, rfl⟩

theorem decode_query_of_request [Client] {settings : Settings} {c : Call} {address : String}
    {request : Request} (hkeys : ((c.query settings).map Prod.fst).Nodup)
    (h : c.request settings = .ok (address, request)) :
    ∃ q, request.address.query = some q ∧ Form.decode q = c.query settings := by
  simp only [Call.request, Request.make, bind_eq_ok_iff, Except.ok.injEq, Prod.mk.injEq] at h
  obtain ⟨text, htext, made, ⟨u, hu, rfl⟩, -, rfl⟩ := h
  have hquery := ((Url.parse_eq_ok_iff text u).mp hu).2.query
  rw [cut_text_query htext, Option.map_some, encodePart_query] at hquery
  refine ⟨_, ?_, Form.decode_query hkeys⟩
  simp only [Request.grounded]
  split <;> exact hquery

/-- The query of an address holds exactly the pairs of its call. -/
theorem address_query_pairs [Client] (settings : Settings) (c : Call) (text : String)
    (hparameters : (c.parameters.map Prod.fst).Nodup)
    (hkeys : ∀ key ∈ c.parameters.map Prod.fst, key ≠ "op" ∧ key ≠ "user.name")
    (haddress : c.address settings = .ok text) :
    ∃ q, (Url.cut text).query = some q ∧
      Form.decode q = ("op", c.operation.name) :: c.parameters ++
        (if settings.user = "" then [] else [("user.name", settings.user)]) := by
  cases hurl : c.url settings with
  | error e => simp [address, hurl, Except.map] at haddress
  | ok u =>
      obtain rfl : u.text = text := by simpa [address, hurl, Except.map] using haddress
      refine ⟨Form.query (c.query settings), ?_, ?_⟩
      · rw [Url.cut_text_query_of_parseWithQuery hurl, encodePart_query]
      · exact Form.decode_query (nodup_query hparameters hkeys)

def crafted : Call where
  operation := .openFile
  path := "/a?op=DELETE&x=1#y"
  parameters := [("k&=", "v +%26#é")]
  content := []

attribute [local instance] Client.plain in
theorem address_query_pairs_of_crafted :
    let settings := { Settings.default with gateway := "http://nn", user := "a&b" }
    let text := "http://nn/webhdfs/v1/a?op=OPEN&k%26%3D=v+%2B%2526%23%C3%A9&user.name=a%26b#y"
    crafted.address settings = .ok text ∧
      ∃ q, (Url.cut text).query = some q ∧
        Form.decode q = [("op", "OPEN"), ("k&=", "v +%26#é"), ("user.name", "a&b")] := by
  intro settings text
  have haddress : crafted.address settings = .ok text := by decide
  exact ⟨haddress, address_query_pairs settings crafted text (by decide) (by decide) haddress⟩

end HdfsBrowser.Call
