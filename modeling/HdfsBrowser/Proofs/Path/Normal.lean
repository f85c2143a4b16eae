import HdfsBrowser.Path
import Mathlib.Data.List.DropRight

/-!
# Normal paths

A normal path begins with a slash, and it is its own normal path.  So the
paths that normalisation leaves alone are exactly its results.
-/

namespace HdfsBrowser.Path

theorem trimEndBy_eq_rdropWhile (p : Char → Bool) (cs : List Char) :
    Text.trimEndBy p cs = cs.rdropWhile p := rfl

theorem rooted_eq_cons (cs : List Char) : ∃ rest, rooted cs = '/' :: rest := by
  unfold rooted
  split
  · exact ⟨_, rfl⟩
  · exact ⟨cs, rfl⟩

@[simp] theorem rooted_cons_slash (rest : List Char) : rooted ('/' :: rest) = '/' :: rest := rfl

theorem trimEndBy_cons (p : Char → Bool) (c : Char) (rest : List Char) :
    Text.trimEndBy p (c :: rest) = [] ∨
      ∃ kept, Text.trimEndBy p (c :: rest) = c :: kept := by
  rw [trimEndBy_eq_rdropWhile]
  have hprefix := List.rdropWhile_prefix p (l := c :: rest)
  cases htrim : (c :: rest).rdropWhile p with
  | nil => exact .inl rfl
  | cons first kept =>
      rw [htrim] at hprefix
      obtain ⟨rfl, -⟩ := List.cons_prefix_cons.mp hprefix
      exact .inr ⟨kept, rfl⟩

theorem normalChars_eq_cons (cs : List Char) : ∃ rest, normalChars cs = '/' :: rest := by
  obtain ⟨rest, hrooted⟩ := rooted_eq_cons cs
  unfold normalChars
  rw [hrooted]
  rcases trimEndBy_cons (· == '/') '/' rest with hnil | ⟨kept, hkept⟩
  · exact ⟨[], by rw [hnil]⟩
  · exact ⟨kept, by rw [hkept]⟩

theorem normalChars_of_trimmed {rest : List Char}
    (h : Text.trimEndBy (· == '/') ('/' :: rest) = '/' :: rest) :
    normalChars ('/' :: rest) = '/' :: rest := by
  simp only [normalChars, rooted_cons_slash, h]

@[simp] theorem normalChars_normalChars (cs : List Char) :
    normalChars (normalChars cs) = normalChars cs := by
  obtain ⟨rest, hrooted⟩ := rooted_eq_cons cs
  rcases trimEndBy_cons (· == '/') '/' rest with hnil | ⟨kept, hkept⟩
  · have hroot : normalChars cs = ['/'] := by simp only [normalChars, hrooted, hnil]
    rw [hroot]
    rfl
  · have hnormal : normalChars cs = '/' :: kept := by simp only [normalChars, hrooted, hkept]
    rw [hnormal]
    apply normalChars_of_trimmed
    rw [← hkept]
    exact List.rdropWhile_idempotent _ _

@[simp] theorem normalize_normalize (path : String) :
    normalize (normalize path) = normalize path := by
  simp [normalize]

@[simp] theorem normalize_root : normalize root = root := by decide

theorem toList_of_normal {path : String} (h : normalize path = path) :
    ∃ rest, path.toList = '/' :: rest := by
  rw [← h]
  simpa [normalize] using normalChars_eq_cons path.toList

/-! ## Characters -/

theorem mem_rooted {cs : List Char} {c : Char} (h : c ∈ rooted cs) : c = '/' ∨ c ∈ cs := by
  unfold rooted at h
  split at h
  · exact .inr h
  · exact List.mem_cons.mp h

theorem mem_normalize {path : String} {c : Char} (h : c ∈ (normalize path).toList) :
    c = '/' ∨ c ∈ path.toList := by
  rw [normalize, String.toList_ofList] at h
  unfold normalChars at h
  split at h
  · exact .inl (List.mem_singleton.mp h)
  · have hrooted : c ∈ rooted path.toList := (List.rdropWhile_prefix (· == '/') _).subset h
    exact mem_rooted hrooted

theorem mem_child {directory name : String} {c : Char} (h : c ∈ (child directory name).toList) :
    c ∈ directory.toList ∨ c = '/' ∨ c ∈ name.toList := by
  have hstem : stem directory.toList ⊆ directory.toList := by
    unfold stem
    split
    · exact List.dropLast_subset _
    · exact List.Subset.refl _
  rw [child, String.toList_ofList, List.mem_append, List.mem_cons] at h
  exact h.imp_left fun hmem => hstem hmem

end HdfsBrowser.Path
