import HdfsBrowser.Proofs.Text.Splitting
import HdfsBrowser.Url.Basic

/-!
# Dot segments

A path without dot segments stays as it is.  Following a dot segment takes
room away, so the path of an address with dot segments is shorter than the one
that was given.
-/

namespace HdfsBrowser.Url

def isDots (segment : List Char) : Bool := segment == ['.'] || segment == ['.', '.']

def hasDots (path : List Char) : Bool := (Text.splitOnChar '/' path).any isDots

theorem intercalate_splitOnChar (path : List Char) :
    List.intercalate ['/'] (Text.splitOnChar '/' path) = path := by
  rw [Text.splitOnChar_eq_splitOn, List.intercalate_splitOn]

theorem hasDots_append_slash (before after : List Char) :
    hasDots (before ++ '/' :: after) = (hasDots before || hasDots after) := by
  simp only [hasDots, Text.splitOnChar_eq_splitOn, List.splitOn_append_cons_self, List.any_append]

/-! ## Paths without dot segments -/

theorem followSegment_of_not_isDots {segment : List Char} (h : isDots segment = false)
    (done : List (List Char)) : followSegment done segment = segment :: done := by
  simp only [isDots, Bool.or_eq_false_iff, beq_eq_false_iff_ne, ne_eq] at h
  rw [followSegment, if_neg h.1, if_neg h.2]

theorem foldl_followSegment {segments : List (List Char)} (h : segments.any isDots = false)
    (done : List (List Char)) : segments.foldl followSegment done = segments.reverse ++ done := by
  induction segments generalizing done with
  | nil => rfl
  | cons segment rest ih =>
      obtain ⟨hfirst, hrest⟩ := Bool.or_eq_false_iff.mp h
      rw [List.foldl_cons, followSegment_of_not_isDots hfirst, ih hrest]
      simp

theorem removeDots_of_not_hasDots {path : List Char} (h : hasDots path = false) :
    removeDots path = path := by
  rw [removeDots, foldl_followSegment h, List.append_nil, List.reverse_reverse,
    intercalate_splitOnChar]

/-! ## The room that segments take -/

def room : List (List Char) → Nat
  | [] => 0
  | segment :: rest => segment.length + 1 + room rest

@[simp] theorem room_nil : room [] = 0 := rfl

@[simp] theorem room_cons (segment : List Char) (rest : List (List Char)) :
    room (segment :: rest) = segment.length + 1 + room rest := rfl

theorem room_append (before after : List (List Char)) :
    room (before ++ after) = room before + room after := by
  induction before with
  | nil => simp
  | cons segment rest ih =>
      rw [List.cons_append, room_cons, room_cons, ih]
      omega

theorem room_reverse (segments : List (List Char)) : room segments.reverse = room segments := by
  induction segments with
  | nil => rfl
  | cons segment rest ih =>
      rw [List.reverse_cons, room_append, ih, room_cons, room_cons, room_nil]
      omega

theorem length_intercalate (segments : List (List Char)) :
    (List.intercalate ['/'] segments).length = room segments - 1 := by
  induction segments with
  | nil => rfl
  | cons segment rest ih =>
      cases rest with
      | nil => simp
      | cons next rest =>
          have hnext : 1 ≤ room (next :: rest) := by
            rw [room_cons]
            omega
          rw [List.intercalate_cons_cons, List.length_append, List.length_append, ih,
            room_cons segment]
          simp only [List.length_singleton]
          omega

theorem room_splitOnChar (path : List Char) :
    room (Text.splitOnChar '/' path) = path.length + 1 := by
  have hlength := length_intercalate (Text.splitOnChar '/' path)
  rw [intercalate_splitOnChar] at hlength
  have hpositive : 1 ≤ room (Text.splitOnChar '/' path) := by
    rw [Text.splitOnChar_eq_splitOn]
    cases hpieces : path.splitOn '/' with
    | nil => exact absurd hpieces (List.splitOn_ne_nil '/' path)
    | cons piece rest =>
        rw [room_cons]
        omega
  omega

/-- A segment adds its room, but a dot segment loses at least two places. -/
theorem room_followSegment (done : List (List Char)) (segment : List Char) :
    room (followSegment done segment) + 2 * (isDots segment).toNat ≤
      room done + (segment.length + 1) := by
  have hdrop : room (done.drop 1) ≤ room done := by
    cases done with
    | nil => exact Nat.le_refl _
    | cons first rest =>
        rw [room_cons, List.drop_succ_cons, List.drop_zero]
        omega
  by_cases hone : segment = ['.']
  · subst hone
    exact Nat.le_refl _
  · by_cases htwo : segment = ['.', '.']
    · subst htwo
      have hdots : isDots ['.', '.'] = true := by decide
      rw [followSegment, if_neg hone, if_pos rfl, hdots]
      split
      · simp
      · simp only [Bool.toNat_true, List.length_cons, List.length_nil]
        omega
    · have hplain : isDots segment = false := by simp [isDots, hone, htwo]
      rw [followSegment_of_not_isDots hplain, room_cons, hplain]
      simp only [Bool.toNat_false]
      omega

theorem room_foldl (segments done : List (List Char)) :
    room (segments.foldl followSegment done) + 2 * (segments.any isDots).toNat ≤
      room done + room segments := by
  induction segments generalizing done with
  | nil => simp
  | cons segment rest ih =>
      have hstep := room_followSegment done segment
      have hrun := ih (followSegment done segment)
      have hany : (isDots segment || rest.any isDots).toNat ≤
          (isDots segment).toNat + (rest.any isDots).toNat := by
        cases isDots segment with
        | false => simp
        | true => simp
      rw [List.foldl_cons, List.any_cons, room_cons]
      omega

theorem length_removeDots (path : List Char) :
    (removeDots path).length + (hasDots path).toNat ≤ path.length := by
  have hrun := room_foldl (Text.splitOnChar '/' path) []
  rw [room_splitOnChar] at hrun
  rw [removeDots, length_intercalate, room_reverse]
  cases hdots : hasDots path with
  | false =>
      simp only [Bool.toNat_false, room_nil] at hrun ⊢
      omega
  | true =>
      rw [hasDots] at hdots
      have hroom : 1 ≤ path.length := by
        cases path with
        | nil => exact absurd hdots (by decide)
        | cons c rest => simp
      simp only [hdots, Bool.toNat_true, room_nil] at hrun ⊢
      omega

/-! ## Rooted paths -/

theorem getLast?_followSegment {done : List (List Char)} (h : done.getLast? = some [])
    (segment : List Char) : (followSegment done segment).getLast? = some [] := by
  unfold followSegment
  split
  · exact h
  · split
    · split
      · exact h
      · next hdone =>
          cases done with
          | nil => cases h
          | cons first rest =>
              cases rest with
              | nil =>
                  obtain rfl : first = [] := by simpa using h
                  exact absurd rfl hdone
              | cons second rest => simpa using h
    · rw [List.getLast?_cons, h]
      rfl

theorem removeDots_cons_slash (path : List Char) :
    removeDots ('/' :: path) = [] ∨ ∃ rest, removeDots ('/' :: path) = '/' :: rest := by
  have hlast : ∀ (segments done : List (List Char)), done.getLast? = some [] →
      (segments.foldl followSegment done).getLast? = some [] := by
    intro segments
    induction segments with
    | nil => exact fun _ h => h
    | cons segment rest ih => exact fun done h => ih _ (getLast?_followSegment h segment)
  have hdone := hlast (Text.splitOnChar '/' path) [[]] rfl
  have hfirst : ((Text.splitOnChar '/' ('/' :: path)).foldl followSegment []).getLast? =
      some [] := hdone
  rw [← List.head?_reverse] at hfirst
  rw [removeDots]
  cases hsegments : ((Text.splitOnChar '/' ('/' :: path)).foldl followSegment []).reverse with
  | nil => exact .inl rfl
  | cons first rest =>
      obtain rfl : first = [] := by simpa [hsegments] using hfirst
      cases rest with
      | nil => exact .inl (by simp)
      | cons next rest => exact .inr ⟨_, by rw [List.intercalate_cons_cons]; rfl⟩

end HdfsBrowser.Url
