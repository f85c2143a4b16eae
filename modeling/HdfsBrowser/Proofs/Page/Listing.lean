import HdfsBrowser.Page
import HdfsBrowser.Proofs.Computation
import HdfsBrowser.Proofs.Number.Timestamp

/-!
# Which listings have a text

A listing has a text when each of its rows has one: name, owner and group are
texts, the time lies in the years 1 to 9999, and the length and the
replication of a file are in the range of what is written.
-/

namespace HdfsBrowser

structure Row.IsShowable (r : Row) : Prop where
  name : ∃ s, r.name = .str s
  owner : ∃ s, r.owner = .str s
  group : ∃ s, r.group = .str s
  replication : r.isDirectory = false → Numeral.Fits r.replication
  length : r.isDirectory = false → r.length.natAbs < Binary64.overflow
  modified : -62135596800000 ≤ r.modified ∧ r.modified < 253402300800000

theorem Amount.exists_text_iff (bytes : Int) :
    (∃ t, text bytes = .ok t) ↔ bytes.natAbs < Binary64.overflow := by
  rw [← Binary64.isFinite_ofInt_iff]
  unfold text
  cases Binary64.ofInt bytes with
  | nan | infinite negative => simp [Binary64.isFinite]
  | finite negative m e =>
      dsimp only
      split <;> simp [Binary64.isFinite]

namespace Page

theorem exists_number_iff (n : Int) : (∃ t, number n = .ok t) ↔ Numeral.Fits n := by
  unfold number Numeral.write
  split <;> simp [Except.mapError, *]

theorem exists_rowName_iff (r : Row) : (∃ t, rowName r = .ok t) ↔ ∃ s, r.name = .str s := by
  unfold rowName
  cases r.name <;> simp

theorem exists_column_iff {v : Value} (hsize : ∃ k, v.size = .ok k) (width : Nat) :
    (∃ t, column width v = .ok t) ↔ ∃ s, v = .str s := by
  obtain ⟨k, hk⟩ := hsize
  cases v with
  | str s => exact iff_of_true ⟨_, rfl⟩ ⟨s, rfl⟩
  | list items | object members => simp [column]
  | null | bool b | int n | float x => cases hk

def unlessDirectory (r : Row) (t : Except Fault String) : Except Fault String :=
  if r.isDirectory then .ok "-" else t

theorem exists_unlessDirectory_iff {r : Row} {x : Except Fault String} :
    (∃ t, unlessDirectory r x = .ok t) ↔ (r.isDirectory = false → ∃ t, x = .ok t) := by
  unfold unlessDirectory
  cases r.isDirectory <;> simp

theorem row_eq_ok_iff {ownerWidth groupWidth : Nat} {r : Row} {t : String} :
    row ownerWidth groupWidth r = .ok t ↔ ∃ name replication size owner group time,
      rowName r = .ok name ∧ unlessDirectory r (number r.replication) = .ok replication ∧
      unlessDirectory r (Amount.text r.length) = .ok size ∧
      column ownerWidth r.owner = .ok owner ∧ column groupWidth r.group = .ok group ∧
      Timestamp.text r.modified = .ok time ∧
      Text.padRight 11 r.permission ++ " " ++ owner ++ " " ++ group ++ " " ++
        Text.padLeft 10 size ++ " " ++ Text.padLeft 16 time ++ " " ++
        Text.padLeft 3 replication ++ "  " ++ name = t := by
  have hrow : row ownerWidth groupWidth r =
      (rowName r >>= fun name =>
        unlessDirectory r (number r.replication) >>= fun replication =>
        unlessDirectory r (Amount.text r.length) >>= fun size =>
        column ownerWidth r.owner >>= fun owner =>
        column groupWidth r.group >>= fun group =>
        Timestamp.text r.modified >>= fun time =>
        .ok (Text.padRight 11 r.permission ++ " " ++ owner ++ " " ++ group ++ " " ++
          Text.padLeft 10 size ++ " " ++ Text.padLeft 16 time ++ " " ++
          Text.padLeft 3 replication ++ "  " ++ name)) := by
    unfold row unlessDirectory
    cases r.isDirectory <;> rfl
  rw [hrow]
  simp only [bind_eq_ok_iff, Except.ok.injEq, exists_and_left]

theorem exists_widest_iff (vs : List Value) :
    (∃ w, widest vs = .ok w) ↔ ∀ v ∈ vs, ∃ k, v.size = .ok k := by
  rw [← exists_mapM_eq_ok_iff]
  unfold widest
  simp only [bind_eq_ok_iff]
  constructor
  · rintro ⟨w, ks, hks, -⟩
    exact ⟨ks, hks⟩
  · rintro ⟨ks, hks⟩
    exact ⟨_, ks, hks, rfl⟩

theorem exists_row_iff {r : Row} (howner : ∃ k, r.owner.size = .ok k)
    (hgroup : ∃ k, r.group.size = .ok k) (ownerWidth groupWidth : Nat) :
    (∃ t, row ownerWidth groupWidth r = .ok t) ↔ r.IsShowable := by
  simp only [row_eq_ok_iff]
  constructor
  · rintro ⟨t, name, replication, size, owner, group, time, hname, hreplication, hsize, hown,
      hgrp, htime, -⟩
    exact {
      name := (exists_rowName_iff r).mp ⟨name, hname⟩
      owner := (exists_column_iff howner ownerWidth).mp ⟨owner, hown⟩
      group := (exists_column_iff hgroup groupWidth).mp ⟨group, hgrp⟩
      replication := fun hfile => (exists_number_iff _).mp
        (exists_unlessDirectory_iff.mp ⟨replication, hreplication⟩ hfile)
      length := fun hfile => (Amount.exists_text_iff _).mp
        (exists_unlessDirectory_iff.mp ⟨size, hsize⟩ hfile)
      modified := (Timestamp.exists_text_iff _).mp ⟨time, htime⟩ }
  · intro h
    obtain ⟨name, hname⟩ := (exists_rowName_iff r).mpr h.name
    obtain ⟨replication, hreplication⟩ := exists_unlessDirectory_iff.mpr
      fun hfile => (exists_number_iff _).mpr (h.replication hfile)
    obtain ⟨size, hsize⟩ := exists_unlessDirectory_iff.mpr
      fun hfile => (Amount.exists_text_iff _).mpr (h.length hfile)
    obtain ⟨owner, hown⟩ := (exists_column_iff howner ownerWidth).mpr h.owner
    obtain ⟨group, hgrp⟩ := (exists_column_iff hgroup groupWidth).mpr h.group
    obtain ⟨time, htime⟩ := (Timestamp.exists_text_iff _).mpr h.modified
    exact ⟨_, name, replication, size, owner, group, time, hname, hreplication, hsize, hown,
      hgrp, htime, rfl⟩

theorem exists_listingLines_iff (l : Listing) :
    (∃ ts, listingLines l = .ok ts) ↔ ∀ r ∈ l.rows, r.IsShowable := by
  unfold listingLines
  cases hrows : l.rows with
  | nil => simp
  | cons first rest =>
  rw [← hrows]
  simp only [hrows, List.isEmpty_cons, Bool.false_eq_true, ↓reduceIte, bind_eq_ok_iff]
  rw [← hrows]
  constructor
  · rintro ⟨ts, ownerWidth, howners, groupWidth, hgroups, rows, hlines, -⟩ r hr
    have howner := (exists_widest_iff _).mp ⟨ownerWidth, howners⟩ r.owner
      (List.mem_map_of_mem hr)
    have hgroup := (exists_widest_iff _).mp ⟨groupWidth, hgroups⟩ r.group
      (List.mem_map_of_mem hr)
    exact (exists_row_iff howner hgroup ownerWidth groupWidth).mp
      (exists_mapM_eq_ok_iff.mp ⟨rows, hlines⟩ r hr)
  · intro h
    have howner (r : Row) (hr : r ∈ l.rows) : ∃ k, r.owner.size = .ok k := by
      obtain ⟨s, hs⟩ := (h r hr).owner
      exact ⟨s.length, by rw [hs]; rfl⟩
    have hgroup (r : Row) (hr : r ∈ l.rows) : ∃ k, r.group.size = .ok k := by
      obtain ⟨s, hs⟩ := (h r hr).group
      exact ⟨s.length, by rw [hs]; rfl⟩
    obtain ⟨ownerWidth, howners⟩ := (exists_widest_iff (l.rows.map (·.owner))).mpr
      (List.forall_mem_map.mpr howner)
    obtain ⟨groupWidth, hgroups⟩ := (exists_widest_iff (l.rows.map (·.group))).mpr
      (List.forall_mem_map.mpr hgroup)
    obtain ⟨rows, hlines⟩ := exists_mapM_eq_ok_iff.mpr fun r hr =>
      (exists_row_iff (howner r hr) (hgroup r hr) ownerWidth groupWidth).mpr (h r hr)
    exact ⟨_, ownerWidth, howners, groupWidth, hgroups, rows, hlines, rfl⟩

theorem exists_text_listing_iff (l : Listing) :
    (∃ t, (Page.listing l).text = .ok t) ↔ ∀ r ∈ l.rows, r.IsShowable := by
  rw [← exists_listingLines_iff]
  unfold text
  change (∃ t, (listingLines l).map (Text.joinWith "\n") = .ok t) ↔ _
  cases listingLines l <;> simp [Except.map]

end Page

end HdfsBrowser
