import Mathlib.Data.List.Forall2

/-!
# Computations that may stop

A sequence of two gives a result when both do.  A traversal gives its results
when each item gives one, and stops at the first item that gives none.
-/

namespace HdfsBrowser

variable {α β ε : Type} {f : α → Except ε β}

theorem bind_eq_ok_iff {x : Except ε α} {b : β} :
    (x >>= f) = .ok b ↔ ∃ a, x = .ok a ∧ f a = .ok b := by
  cases x with
  | error e => simp [bind, Except.bind]
  | ok a => simp [bind, Except.bind]

theorem bind_eq_error_iff {x : Except ε α} {why : ε} :
    (x >>= f) = .error why ↔ x = .error why ∨ ∃ a, x = .ok a ∧ f a = .error why := by
  cases x with
  | error e => simp [bind, Except.bind]
  | ok a => simp [bind, Except.bind]

theorem map_eq_ok_iff {x : Except ε α} {g : α → β} {b : β} :
    x.map g = .ok b ↔ ∃ a, x = .ok a ∧ g a = b := by
  cases x <;> simp [Except.map]

theorem map_eq_error_iff {x : Except ε α} {g : α → β} {why : ε} :
    x.map g = .error why ↔ x = .error why := by
  cases x <;> simp [Except.map]

theorem exists_mapM_eq_ok_iff {xs : List α} :
    (∃ ys, xs.mapM f = .ok ys) ↔ ∀ x ∈ xs, ∃ y, f x = .ok y := by
  induction xs with
  | nil => simp [pure, Except.pure]
  | cons x xs ih =>
      rw [List.mapM_cons, List.forall_mem_cons, ← ih]
      cases hx : f x with
      | error why => simp [bind, Except.bind]
      | ok y => cases hxs : xs.mapM f <;> simp [bind, Except.bind, pure, Except.pure]

theorem mapM_eq_ok_iff {xs : List α} {ys : List β} :
    xs.mapM f = .ok ys ↔ List.Forall₂ (fun x y => f x = .ok y) xs ys := by
  induction xs generalizing ys with
  | nil =>
      constructor
      · intro h
        cases h
        exact .nil
      · rintro ⟨⟩
        rfl
  | cons x xs ih =>
      simp only [List.mapM_cons, bind_eq_ok_iff]
      constructor
      · rintro ⟨y, hy, rest, hrest, hys⟩
        cases hys
        exact .cons hy (ih.mp hrest)
      · rintro (_ | ⟨hy, hrest⟩)
        exact ⟨_, hy, _, ih.mpr hrest, rfl⟩

theorem exists_of_mem_mapM {xs : List α} {ys : List β} (h : xs.mapM f = .ok ys) {y : β}
    (hy : y ∈ ys) : ∃ x ∈ xs, f x = .ok y := by
  have hall := mapM_eq_ok_iff.mp h
  obtain ⟨i, hi, rfl⟩ := List.getElem_of_mem hy
  have hx : i < xs.length := hall.length_eq ▸ hi
  exact ⟨xs.get ⟨i, hx⟩, List.get_mem xs _, hall.get hx hi⟩

theorem exists_mem_of_mapM {xs : List α} {ys : List β} (h : xs.mapM f = .ok ys) {x : α}
    (hx : x ∈ xs) : ∃ y ∈ ys, f x = .ok y := by
  have hall := mapM_eq_ok_iff.mp h
  obtain ⟨i, hi, rfl⟩ := List.getElem_of_mem hx
  have hy : i < ys.length := hall.length_eq ▸ hi
  exact ⟨ys.get ⟨i, hy⟩, List.get_mem ys _, hall.get hi hy⟩

theorem forall₂_comp {γ : Type} {R : α → β → Prop} {S : β → γ → Prop} {xs : List α} {ys : List β}
    {zs : List γ} (h : List.Forall₂ R xs ys) (h' : List.Forall₂ S ys zs) :
    List.Forall₂ (fun x z => ∃ y, R x y ∧ S y z) xs zs := by
  induction h generalizing zs with
  | nil =>
      cases h'
      exact .nil
  | @cons x y xs ys hxy hrest ih =>
      cases h' with
      | cons hyz hrest' => exact .cons ⟨y, hxy, hyz⟩ (ih hrest')

theorem mapM_eq_error_iff {xs : List α} {why : ε} :
    xs.mapM f = .error why ↔ ∃ before x after, xs = before ++ x :: after ∧
      (∀ y ∈ before, ∃ z, f y = .ok z) ∧ f x = .error why := by
  constructor
  · intro h
    induction xs with
    | nil => cases h
    | cons x xs ih =>
        rw [List.mapM_cons, bind_eq_error_iff] at h
        rcases h with hx | ⟨y, hy, h⟩
        · exact ⟨[], x, xs, rfl, by simp, hx⟩
        · rw [bind_eq_error_iff] at h
          rcases h with hxs | ⟨ys, -, hpure⟩
          · obtain ⟨before, w, after, rfl, hbefore, hw⟩ := ih hxs
            exact ⟨x :: before, w, after, rfl,
              List.forall_mem_cons.mpr ⟨⟨y, hy⟩, hbefore⟩, hw⟩
          · cases hpure
  · rintro ⟨before, x, after, rfl, hbefore, hx⟩
    obtain ⟨ys, hys⟩ := exists_mapM_eq_ok_iff.mpr hbefore
    rw [List.mapM_append, List.mapM_cons, hys, hx]
    rfl

end HdfsBrowser
