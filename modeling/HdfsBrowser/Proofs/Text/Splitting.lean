import HdfsBrowser.Text.Column

/-!
# Splitting at a character

Splitting is that of lists, so joining the pieces with the character between
them gives back the text.  Cutting takes the first piece apart.
-/

namespace HdfsBrowser.Text

theorem splitOnChar_eq_splitOn (sep : Char) (cs : List Char) :
    splitOnChar sep cs = cs.splitOn sep := by
  induction cs with
  | nil => rfl
  | cons c cs ih =>
      rw [List.splitOn_cons_eq_if_modifyHead, splitOnChar, ih]
      by_cases hc : c = sep
      · simp [hc]
      · rw [if_neg hc, if_neg (by simpa using hc)]
        cases hpieces : cs.splitOn sep with
        | nil => exact absurd hpieces (List.splitOn_ne_nil sep cs)
        | cons piece rest => rfl

theorem mem_of_mem_splitOnChar {sep c : Char} {cs piece : List Char}
    (hpiece : piece ∈ splitOnChar sep cs) (hc : c ∈ piece) : c ∈ cs := by
  induction cs generalizing piece with
  | nil =>
      rw [splitOnChar, List.mem_singleton] at hpiece
      exact absurd hc (by simp [hpiece])
  | cons first cs ih =>
      rw [splitOnChar_eq_splitOn, List.splitOn_cons_eq_if_modifyHead] at hpiece
      rw [splitOnChar_eq_splitOn] at ih
      split at hpiece
      · rcases List.mem_cons.mp hpiece with rfl | hrest
        · cases hc
        · exact List.mem_cons_of_mem first (ih hrest hc)
      · cases hpieces : cs.splitOn sep with
        | nil => exact absurd hpieces (List.splitOn_ne_nil sep cs)
        | cons head rest =>
            rw [hpieces, List.modifyHead_cons, List.mem_cons] at hpiece
            rw [hpieces] at ih
            rcases hpiece with rfl | hrest
            · rcases List.mem_cons.mp hc with rfl | hhead
              · exact List.mem_cons_self
              · exact List.mem_cons_of_mem first (ih List.mem_cons_self hhead)
            · exact List.mem_cons_of_mem first (ih (List.mem_cons_of_mem head hrest) hc)

theorem not_mem_of_mem_splitOn {sep : Char} {cs piece : List Char}
    (h : piece ∈ cs.splitOn sep) : sep ∉ piece := by
  induction cs generalizing piece with
  | nil =>
      rw [List.splitOn_nil, List.mem_singleton] at h
      simp [h]
  | cons c cs ih =>
      rw [List.splitOn_cons_eq_if_modifyHead] at h
      split at h
      · rcases List.mem_cons.mp h with rfl | hrest
        · exact List.not_mem_nil
        · exact ih hrest
      · next hc =>
          cases hpieces : cs.splitOn sep with
          | nil => exact absurd hpieces (List.splitOn_ne_nil sep cs)
          | cons head rest =>
              rw [hpieces, List.modifyHead_cons, List.mem_cons] at h
              rcases h with rfl | hrest
              · have hhead : sep ∉ head := ih (by simp [hpieces])
                simpa [hhead] using fun heq : sep = c => hc (by simp [heq])
              · exact ih (by simp [hpieces, hrest])

/-! ## Cutting -/

theorem cutAtFirst_cons_of_ne {sep c : Char} (h : c ≠ sep) (cs : List Char) :
    cutAtFirst sep (c :: cs) = (c :: (cutAtFirst sep cs).1, (cutAtFirst sep cs).2) := by
  rw [cutAtFirst, if_neg h]

theorem cutAtFirst_append {sep : Char} {cs : List Char} (h : sep ∉ cs) (rest : List Char) :
    cutAtFirst sep (cs ++ rest) = (cs ++ (cutAtFirst sep rest).1, (cutAtFirst sep rest).2) := by
  induction cs with
  | nil => rfl
  | cons c cs ih =>
      have hc : c ≠ sep := fun heq => h (heq ▸ List.mem_cons_self)
      have hcs : sep ∉ cs := fun hmem => h (List.mem_cons_of_mem c hmem)
      rw [List.cons_append, cutAtFirst_cons_of_ne hc, ih hcs]
      rfl

theorem cutAtFirst_of_not_mem {sep : Char} {cs : List Char} (h : sep ∉ cs) :
    cutAtFirst sep cs = (cs, none) := by
  have hend := cutAtFirst_append h []
  simpa [cutAtFirst] using hend

theorem cutAtFirst_append_cons {sep : Char} {cs : List Char} (h : sep ∉ cs) (rest : List Char) :
    cutAtFirst sep (cs ++ sep :: rest) = (cs, some rest) := by
  simp [cutAtFirst_append h, cutAtFirst]

theorem cutAtFirst_fst (sep : Char) (cs : List Char) :
    (sep ∉ cs ∧ (cutAtFirst sep cs).1 = cs) ∨
      (sep ∈ cs ∧ (cutAtFirst sep cs).1.length < cs.length) := by
  by_cases hmem : sep ∈ cs
  · obtain ⟨before, after, rfl, hbefore⟩ := List.eq_append_cons_of_mem hmem
    rw [cutAtFirst_append_cons hbefore]
    exact .inr ⟨hmem, by simp⟩
  · rw [cutAtFirst_of_not_mem hmem]
    exact .inl ⟨hmem, rfl⟩

end HdfsBrowser.Text
