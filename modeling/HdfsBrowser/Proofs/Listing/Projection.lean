import HdfsBrowser.Listing
import HdfsBrowser.Proofs.Permission.Number
import HdfsBrowser.Proofs.Computation

/-!
# Which payloads are no listings

Most of what can be wrong with a payload makes it malformed: it has no
members, its descriptions cannot be visited, a number is missing, a permission
is none, a name is no text.  The fault is of another kind only when the first
description that cannot be read has a number without bound as the first of its
numbers that is no integer.
-/

namespace HdfsBrowser

namespace Value

variable {v : Value} {why : Fault}

theorem isMalformed_of_asObject (h : v.asObject = .error why) : why.isMalformed = true := by
  cases v <;> cases h <;> rfl

theorem asObject_eq_ok {members : List (String × Value)} (h : v.asObject = .ok members) :
    v = .object members := by
  cases v <;> cases h
  rfl

theorem isMalformed_of_items (h : v.items = .error why) : why.isMalformed = true := by
  cases v <;> cases h <;> rfl

def IsUnbounded (v : Value) : Prop := ∃ negative, v = .float (.infinite negative)

theorem family_of_asInteger (h : v.asInteger = .error why) :
    (why.family = .value ∨ why.family = .kind) ∨ why = .tooLarge ∧ v.IsUnbounded := by
  cases v with
  | null | list items | object members =>
      cases h
      exact .inl (.inr rfl)
  | bool b | int n => cases h
  | float x =>
      cases x with
      | nan =>
          cases h
          exact .inl (.inl rfl)
      | infinite negative =>
          cases h
          exact .inr ⟨rfl, negative, rfl⟩
      | finite negative mantissa exponent => cases h
  | str s =>
      simp only [asInteger, Except.mapError] at h
      split at h
      · cases h
        exact .inl (.inl rfl)
      · cases h

theorem asInteger_eq_error (h : v.asInteger = .error why) :
    why.isMalformed = true ∨ why = .tooLarge ∧ v.IsUnbounded := by
  rcases family_of_asInteger h with (hvalue | hkind) | hunbounded
  · exact .inl (by simp [Fault.isMalformed, hvalue])
  · exact .inl (by simp [Fault.isMalformed, hkind])
  · exact .inr hunbounded

theorem asInteger_of_isUnbounded (h : v.IsUnbounded) : v.asInteger = .error .tooLarge := by
  obtain ⟨negative, rfl⟩ := h
  rfl

end Value

namespace Entry

def numbers (members : List (String × Value)) : List Value :=
  [Value.member members "permission" (.str "0"), Value.member members "replication" (.int 0),
    Value.member members "length" (.int 0), Value.member members "modificationTime" (.int 0),
    Value.member members "blockSize" (.int 0)]

theorem ofStatus_object_eq_error_iff {members : List (String × Value)} {why : Fault} :
    ofStatus (.object members) = .error why ↔
      (numbers members).mapM Value.asInteger = .error why := by
  unfold ofStatus numbers
  simp only [Value.asObject, bind_eq_error_iff, List.mapM_cons, List.mapM_nil, pure, Except.pure]
  simp

/-- The first number of a description that is no integer is without bound. -/
def MeetsUnbounded (status : Value) : Prop :=
  ∃ members before v after, status = .object members ∧
    numbers members = before ++ v :: after ∧
    (∀ w ∈ before, ∃ n, w.asInteger = .ok n) ∧ v.IsUnbounded

theorem ofStatus_eq_error {status : Value} {why : Fault} (h : ofStatus status = .error why) :
    why.isMalformed = true ∨ why = .tooLarge ∧ MeetsUnbounded status := by
  cases status with
  | object members =>
      obtain ⟨before, v, after, hnumbers, hbefore, hv⟩ :=
        mapM_eq_error_iff.mp (ofStatus_object_eq_error_iff.mp h)
      rcases Value.asInteger_eq_error hv with hmalformed | ⟨hwhy, hunbounded⟩
      · exact .inl hmalformed
      · exact .inr ⟨hwhy, members, before, v, after, rfl, hnumbers, hbefore, hunbounded⟩
  | _ =>
      cases h
      exact .inl rfl

theorem ofStatus_of_meetsUnbounded {status : Value} (h : MeetsUnbounded status) :
    ofStatus status = .error .tooLarge := by
  obtain ⟨members, before, v, after, rfl, hnumbers, hbefore, hv⟩ := h
  rw [ofStatus_object_eq_error_iff, mapM_eq_error_iff]
  exact ⟨before, v, after, hnumbers, hbefore, Value.asInteger_of_isUnbounded hv⟩

end Entry

namespace Listing

/-- The first description of a payload that cannot be read stops at a number without bound. -/
def StopsUnbounded (payload : Value) : Prop :=
  ∃ members before status after, payload = .object members ∧
    (Value.member members "FileStatus" (.list [])).items = .ok (before ++ status :: after) ∧
    (∀ s ∈ before, ∃ e, Entry.ofStatus s = .ok e) ∧ Entry.MeetsUnbounded status

theorem ofListing_eq_error {payload : Value} {why : Fault}
    (h : Entry.ofListing payload = .error why) :
    why.isMalformed = true ∨ why = .tooLarge ∧ StopsUnbounded payload := by
  unfold Entry.ofListing at h
  simp only [bind_eq_error_iff, mapM_eq_error_iff] at h
  rcases h with hobject | ⟨members, hobject, hitems | ⟨_, hitems, before, status, after, rfl,
    hbefore, hstatus⟩⟩
  · exact .inl (Value.isMalformed_of_asObject hobject)
  · exact .inl (Value.isMalformed_of_items hitems)
  · rcases Entry.ofStatus_eq_error hstatus with hmalformed | ⟨hwhy, hmeets⟩
    · exact .inl hmalformed
    · exact .inr ⟨hwhy, members, before, status, after, Value.asObject_eq_ok hobject, hitems,
        hbefore, hmeets⟩

theorem isMalformed_of_entryPath {directory : String} {name : Value} {why : Fault}
    (h : entryPath directory name = .error why) : why.isMalformed = true := by
  unfold entryPath at h
  split at h
  · split at h <;> cases h
    rfl
  · cases h

theorem isMalformed_of_rowOf {directory : String} {e : Entry} {why : Fault}
    (h : rowOf directory e = .error why) : why.isMalformed = true := by
  unfold rowOf at h
  simp only [bind_eq_error_iff] at h
  rcases h with hdecode | ⟨_, -, hpath | ⟨_, -, hrow⟩⟩
  · exact Permission.isMalformed_of_decode_int hdecode
  · exact isMalformed_of_entryPath hpath
  · cases hrow

theorem isMalformed_of_ofEntries {directory : String} {entries : List Entry} {why : Fault}
    (h : ofEntries directory entries = .error why) : why.isMalformed = true := by
  unfold ofEntries at h
  simp only [bind_eq_error_iff, mapM_eq_error_iff] at h
  rcases h with ⟨before, e, after, -, -, hrow⟩ | ⟨_, -, hlisting⟩
  · exact isMalformed_of_rowOf hrow
  · cases hlisting

theorem ofPayload_eq_error {target : String} {payload : Value} {why : Fault}
    (h : ofPayload target payload = .error why) :
    why.isMalformed = true ∨ why = .tooLarge ∧ StopsUnbounded payload := by
  unfold ofPayload at h
  rcases bind_eq_error_iff.mp h with hentries | ⟨entries, -, hlisting⟩
  · exact ofListing_eq_error hentries
  · exact .inl (isMalformed_of_ofEntries hlisting)

theorem ofPayload_of_stopsUnbounded (target : String) {payload : Value}
    (h : StopsUnbounded payload) : ofPayload target payload = .error .tooLarge := by
  obtain ⟨members, before, status, after, rfl, hitems, hbefore, hstatus⟩ := h
  unfold ofPayload Entry.ofListing
  simp only [bind_eq_error_iff, mapM_eq_error_iff]
  exact .inl (.inr ⟨members, rfl, .inr ⟨_, hitems, before, status, after, rfl, hbefore,
    Entry.ofStatus_of_meetsUnbounded hstatus⟩⟩)

end Listing

end HdfsBrowser
