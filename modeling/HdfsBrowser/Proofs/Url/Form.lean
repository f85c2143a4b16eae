import HdfsBrowser.Proofs.Text.Splitting
import HdfsBrowser.Proofs.Url.Percent
import HdfsBrowser.Url.Form

/-!
# Reading of queries

A query is read by splitting it at `&` into pairs and each pair at its first
`=`.  Encoded keys and values hold neither, so the pairs of a query are read
back as they were, whatever characters they have.
-/

namespace HdfsBrowser.Form

def decodeText (cs : List Char) : String := Utf8.decodeLossy (decodeBytes cs)

def decodePair (cs : List Char) : String × String :=
  let (key, value) := Text.cutAtFirst '=' cs
  (decodeText key, decodeText (value.getD []))

def decode (query : String) : List (String × String) :=
  ((Text.splitOnChar '&' query.toList).filter (!·.isEmpty)).map decodePair

/-! ## Keys and values -/

def IsEncodedChar (c : Char) : Prop :=
  Percent.unreserved c = true ∨ c = '+' ∨ Percent.IsEscapeChar c

theorem isEncodedChar_of_mem_encode {s : String} {c : Char} (h : c ∈ encode s) :
    IsEncodedChar c := by
  obtain ⟨d, hd, hc⟩ := List.mem_flatMap.mp h
  unfold encodeChar at hc
  split at hc
  · exact .inr (.inl (List.mem_singleton.mp hc))
  · rcases Percent.mem_encodeChar hc with ⟨rfl, hsafe⟩ | hescape
    · exact .inl hsafe
    · exact .inr (.inr hescape)

theorem IsEncodedChar.ne {c d : Char} (h : IsEncodedChar c)
    (hd : Percent.unreserved d = false ∧ d ≠ '+' ∧ d ≠ '%') : c ≠ d := by
  rintro rfl
  rcases h with hsafe | rfl | rfl | ⟨n, hn, rfl⟩
  · simp [hd.1] at hsafe
  · exact hd.2.1 rfl
  · exact hd.2.2 rfl
  · simp [Percent.unreserved_digit hn] at hd

def blankOf (c : Char) : Char := if c = '+' then ' ' else c

theorem decodeBytes_eq (cs : List Char) : decodeBytes cs = Percent.decode (cs.map blankOf) := rfl

theorem map_blankOf {cs : List Char} (h : '+' ∉ cs) : cs.map blankOf = cs := by
  have hsame : ∀ c ∈ cs, blankOf c = id c := by
    intro c hc
    exact if_neg fun (heq : c = '+') => h (heq ▸ hc)
  rw [List.map_congr_left hsame, List.map_id]

theorem decodeBytes_encodeChar_append (c : Char) (rest : List Char) :
    decodeBytes (encodeChar c ++ rest) = Utf8.encodeChar c ++ decodeBytes rest := by
  simp only [decodeBytes_eq, List.map_append]
  by_cases hblank : c = ' '
  · subst hblank
    exact Percent.decode_cons_of_ne (by decide) _
  · have hplus : '+' ∉ encodeChar c := by
      intro hmem
      rw [encodeChar, if_neg hblank] at hmem
      rcases Percent.mem_encodeChar hmem with ⟨rfl, hsafe⟩ | hescape
      · exact absurd hsafe (by decide)
      · exact absurd hescape (by decide)
    rw [map_blankOf hplus, encodeChar, if_neg hblank]
    refine Percent.decode_encodeChar_append fun hsafe => ?_
    have hpercent : c ≠ '%' := fun heq => by simp [heq, Percent.unreserved] at hsafe
    simp [hpercent]

theorem decodeBytes_encode (s : String) : decodeBytes (encode s) = Utf8.encode s := by
  have hlist : ∀ cs : List Char,
      decodeBytes (cs.flatMap encodeChar) = cs.flatMap Utf8.encodeChar := by
    intro cs
    induction cs with
    | nil => exact Percent.decode_nil
    | cons c cs ih =>
        rw [List.flatMap_cons, decodeBytes_encodeChar_append, ih, List.flatMap_cons]
  exact hlist s.toList

theorem decodeText_encode (s : String) : decodeText (encode s) = s := by
  rw [decodeText, decodeBytes_encode, Utf8.decodeLossy_encode]

/-! ## Pairs -/

theorem decodePair_pairChars (pair : String × String) : decodePair (pairChars pair) = pair := by
  have hkey : '=' ∉ encode pair.1 := fun hmem =>
    (isEncodedChar_of_mem_encode hmem).ne (by decide) rfl
  rw [decodePair, pairChars, Text.cutAtFirst_append_cons hkey]
  simp only [Option.getD_some, decodeText_encode]

theorem isEncodedChar_of_mem_pairChars {pair : String × String} {c : Char}
    (h : c ∈ pairChars pair) : IsEncodedChar c ∨ c = '=' := by
  rcases List.mem_append.mp h with hkey | hvalue
  · exact .inl (isEncodedChar_of_mem_encode hkey)
  · rcases List.mem_cons.mp hvalue with rfl | hvalue
    · exact .inr rfl
    · exact .inl (isEncodedChar_of_mem_encode hvalue)

theorem ampersand_not_mem_pairChars (pair : String × String) : '&' ∉ pairChars pair := by
  intro hmem
  rcases isEncodedChar_of_mem_pairChars hmem with hencoded | heq
  · exact hencoded.ne (by decide) rfl
  · exact absurd heq (by decide)

theorem pairChars_ne_nil (pair : String × String) : pairChars pair ≠ [] := by
  simp [pairChars]

theorem pairsChars_eq_intercalate (pairs : List (String × String)) :
    pairsChars pairs = List.intercalate ['&'] (pairs.map pairChars) := by
  induction pairs with
  | nil => rfl
  | cons pair rest ih =>
      cases rest with
      | nil => simp [pairsChars]
      | cons next rest =>
          rw [pairsChars, ih]
          simp

theorem decode_pairsChars (pairs : List (String × String)) :
    decode (String.ofList (pairsChars pairs)) = pairs := by
  cases pairs with
  | nil => rfl
  | cons pair rest =>
      have hfree : ∀ piece ∈ (pair :: rest).map pairChars, '&' ∉ piece := by
        intro piece hpiece
        obtain ⟨source, -, rfl⟩ := List.mem_map.mp hpiece
        exact ampersand_not_mem_pairChars source
      have hnonempty : ∀ piece ∈ (pair :: rest).map pairChars, (!piece.isEmpty) = true := by
        intro piece hpiece
        obtain ⟨source, -, rfl⟩ := List.mem_map.mp hpiece
        simp [pairChars_ne_nil]
      rw [decode, String.toList_ofList, pairsChars_eq_intercalate, Text.splitOnChar_eq_splitOn,
        List.splitOn_intercalate '&' hfree (by simp), List.filter_eq_self.mpr hnonempty,
        List.map_map]
      refine (List.map_congr_left fun source _ => ?_).trans (List.map_id _)
      exact decodePair_pairChars source

/-! ## Queries -/

theorem addGrouped_of_not_mem {pair : String × String} {done : List (String × String)}
    (h : pair.1 ∉ done.map Prod.fst) : addGrouped pair done = done ++ [pair] := by
  induction done with
  | nil => rfl
  | cons first rest ih =>
      rw [List.map_cons, List.mem_cons, not_or] at h
      rw [addGrouped, if_neg (Ne.symm h.1), ih h.2, List.cons_append]

theorem grouped_of_nodup {pairs : List (String × String)} (h : (pairs.map Prod.fst).Nodup) :
    grouped pairs = pairs := by
  have hrest : ∀ rest done : List (String × String), ((done ++ rest).map Prod.fst).Nodup →
      rest.foldl (fun done pair => addGrouped pair done) done = done ++ rest := by
    intro rest
    induction rest with
    | nil => intro done _; simp
    | cons pair rest ih =>
        intro done hnodup
        have hnew : pair.1 ∉ done.map Prod.fst := by
          rw [List.map_append, List.nodup_append] at hnodup
          exact fun hmem => hnodup.2.2 _ hmem _ (by simp) rfl
        rw [List.foldl_cons, addGrouped_of_not_mem hnew, ih _ (by simpa using hnodup)]
        simp
  exact hrest pairs [] h

theorem decode_query {pairs : List (String × String)} (h : (pairs.map Prod.fst).Nodup) :
    decode (query pairs) = pairs := by
  rw [query, grouped_of_nodup h, decode_pairsChars]

theorem mem_query {pairs : List (String × String)} {c : Char} (h : c ∈ (query pairs).toList) :
    IsEncodedChar c ∨ c = '=' ∨ c = '&' := by
  rw [query, String.toList_ofList] at h
  generalize grouped pairs = pairs at h
  induction pairs with
  | nil => cases h
  | cons pair rest ih =>
      have hpair : ∀ d ∈ pairChars pair, IsEncodedChar d ∨ d = '=' ∨ d = '&' := fun d hd =>
        (isEncodedChar_of_mem_pairChars hd).imp id .inl
      cases rest with
      | nil => exact hpair c h
      | cons next rest =>
          rw [pairsChars, List.mem_append, List.mem_cons] at h
          rcases h with hfirst | rfl | hrest
          · exact hpair c hfirst
          · exact .inr (.inr rfl)
          · exact ih hrest

theorem querySafe_of_mem_query {pairs : List (String × String)} {c : Char}
    (h : c ∈ (query pairs).toList) : Percent.querySafe c = true := by
  have hunreserved : ∀ d, Percent.unreserved d = true → Percent.querySafe d = true := fun d =>
    Percent.visibleExcept_of_unreserved (by decide)
  rcases mem_query h with (hsafe | rfl | rfl | ⟨n, hn, rfl⟩) | rfl | rfl
  · exact hunreserved c hsafe
  · decide
  · decide
  · exact hunreserved _ (Percent.unreserved_digit hn)
  · decide
  · decide

end HdfsBrowser.Form
