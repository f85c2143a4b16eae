import HdfsBrowser.Proofs.Number.Integer
import HdfsBrowser.Proofs.Path.Normal

/-!
# Names in directories

A name in a normal directory has a normal path, and that path is taken apart
into the directory and the name again.  So no two names share a path, nor does
one name in two directories.
-/

namespace HdfsBrowser

namespace Path

/-! ## The last slash -/

structure IsName (name : String) : Prop where
  ne_empty : name ≠ ""
  no_slash : '/' ∉ name.toList

theorem IsName.exists_last {name : String} (h : IsName name) :
    ∃ before last, name.toList = before ++ [last] ∧ last ≠ '/' := by
  have hne : name.toList ≠ [] := fun hnil => h.ne_empty (String.toList_eq_nil_iff.mp hnil)
  obtain ⟨before, last, hlast⟩ := (List.eq_nil_or_concat name.toList).resolve_left hne
  rw [List.concat_eq_append] at hlast
  exact ⟨before, last, hlast, fun heq => h.no_slash (by simp [hlast, heq])⟩

theorem forall_reverse_ne_slash {name : List Char} (h : '/' ∉ name) :
    ∀ c ∈ name.reverse, (c != '/') = true := by
  intro c hc
  simpa using fun heq : c = '/' => h (heq ▸ List.mem_reverse.mp hc)

theorem lastSegment_append {name : List Char} (h : '/' ∉ name) (before : List Char) :
    lastSegment (before ++ '/' :: name) = name := by
  rw [lastSegment, List.reverse_append, List.reverse_cons, List.append_assoc,
    List.takeWhile_append_of_pos (forall_reverse_ne_slash h)]
  simp

theorem parentChars_append {name : List Char} (h : '/' ∉ name) (before : List Char) :
    parentChars (before ++ '/' :: name) = before := by
  rw [parentChars, List.reverse_append, List.reverse_cons, List.append_assoc,
    List.dropWhile_append_of_pos (forall_reverse_ne_slash h)]
  simp

theorem normalChars_of_last {cs : List Char} {last : Char} (hlast : cs.getLast? = some last)
    (hne : last ≠ '/') : normalChars ('/' :: cs) = '/' :: cs := by
  apply normalChars_of_trimmed
  rw [trimEndBy_eq_rdropWhile, List.rdropWhile_eq_self_iff]
  intro hcons
  obtain ⟨before, rfl⟩ := List.getLast?_eq_some_iff.mp hlast
  simpa using hne

theorem normalChars_cases (cs : List Char) :
    normalChars cs = ['/'] ∨ ∃ rest last, normalChars cs = '/' :: rest ∧
      rest.getLast? = some last ∧ last ≠ '/' := by
  obtain ⟨rest, hrooted⟩ := rooted_eq_cons cs
  rcases trimEndBy_cons (· == '/') '/' rest with hnil | ⟨kept, hkept⟩
  · exact .inl (by simp only [normalChars, hrooted, hnil])
  · have hnormal : normalChars cs = '/' :: kept := by simp only [normalChars, hrooted, hkept]
    have hne : ('/' :: rest).rdropWhile (· == '/') ≠ [] := by
      rw [← trimEndBy_eq_rdropWhile, hkept]
      exact List.cons_ne_nil _ _
    have hlast := List.rdropWhile_last_not (· == '/') ('/' :: rest) hne
    simp only [← trimEndBy_eq_rdropWhile, hkept] at hlast
    cases hrest : kept.getLast? with
    | none => simp [List.getLast?_eq_none_iff.mp hrest] at hlast
    | some last =>
        obtain ⟨before, rfl⟩ := List.getLast?_eq_some_iff.mp hrest
        exact .inr ⟨_, last, hnormal, hrest, by simpa using hlast⟩

/-! ## Children of normal directories -/

/-- What stands before the slash of a child: nothing below the root, else the directory. -/
theorem stem_normalChars (cs : List Char) :
    (normalChars cs = ['/'] ∧ stem (normalChars cs) = []) ∨
      (stem (normalChars cs) = normalChars cs ∧ ∃ rest, normalChars cs = '/' :: rest) := by
  rcases normalChars_cases cs with hroot | ⟨rest, last, hnormal, hlast, hne⟩
  · exact .inl ⟨hroot, by rw [hroot]; rfl⟩
  · refine .inr ⟨if_neg ?_, rest, hnormal⟩
    rw [hnormal, List.getLast?_cons, hlast]
    simpa using hne

variable {directory name : String}

theorem normalChars_child (h : IsName name) (directory : String) :
    normalChars (child (normalize directory) name).toList =
      (child (normalize directory) name).toList := by
  obtain ⟨before, last, hlast, hslash⟩ := h.exists_last
  rw [child, String.toList_ofList, normalize, String.toList_ofList]
  rcases stem_normalChars directory.toList with ⟨-, hstem⟩ | ⟨hstem, rest, hnormal⟩
  · rw [hstem]
    exact normalChars_of_last (by simp [hlast]) hslash
  · rw [hstem, hnormal, List.cons_append]
    refine normalChars_of_last ?_ hslash
    rw [hlast, ← List.cons_append, ← List.append_assoc, List.getLast?_concat]

theorem normalize_child (h : IsName name) (directory : String) :
    normalize (child (normalize directory) name) = child (normalize directory) name := by
  rw [normalize, normalChars_child h, String.ofList_toList]

theorem baseName_child (h : IsName name) (directory : String) :
    baseName (child (normalize directory) name) = name := by
  rw [baseName, normalChars_child h, child, String.toList_ofList,
    lastSegment_append h.no_slash, String.ofList_toList]

theorem split_child (h : IsName name) (directory : String) :
    split (child (normalize directory) name) = (normalize directory, name) := by
  simp only [split, normalChars_child h]
  rw [child, String.toList_ofList, lastSegment_append h.no_slash,
    parentChars_append h.no_slash, String.ofList_toList, normalize, String.toList_ofList]
  rcases stem_normalChars directory.toList with ⟨hroot, hstem⟩ | ⟨hstem, rest, hnormal⟩
  · rw [hstem, hroot]
    rfl
  · rw [hstem, hnormal, if_neg (by simp [← String.toList_inj])]

theorem child_inj {directory' name' : String} (h : IsName name) (h' : IsName name')
    (heq : child (normalize directory) name = child (normalize directory') name') :
    normalize directory = normalize directory' ∧ name = name' := by
  have hsplit := congrArg split heq
  rw [split_child h, split_child h'] at hsplit
  exact Prod.mk.inj hsplit

theorem trimSlashes_of_isName (h : IsName name) : trimSlashes name = name := by
  have hkept : ∀ c ∈ name.toList, (c == '/') = false := by
    intro c hc
    simpa using fun heq : c = '/' => h.no_slash (heq ▸ hc)
  rw [trimSlashes, Text.trimBy_of_forall hkept, String.ofList_toList]

end Path

end HdfsBrowser
