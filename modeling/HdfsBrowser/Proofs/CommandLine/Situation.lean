import HdfsBrowser.CommandLine.Course
import Mathlib.Data.List.Nodup

/-!
# Situations of a course

A course of actions has at most one activity at a time.  What counts of it is
the console, the calls that the activity waits for, and the actions that are
still to come; redirections and the numbers of requests make no difference.
A course without faults goes through such situations, and every call that
comes to an outcome takes it on by one step.  Only so many calls are left in a
situation, so a course in which every call is answered comes to its end.
-/

namespace HdfsBrowser

def Outcome.Speaks (o : Outcome) : Prop := ∀ why, o = .error why → why.message.truthy = true

namespace CommandLine

structure Record where
  operation : Operation
  outcome : Outcome
  commits : Bool
  deriving DecidableEq, Repr

abbrev Slots := List (Nat × Operation)

def slotsOf (calls : List Call) : Slots := calls.mapIdx fun i c => (i, c.operation)

theorem mem_slotsOf_iff {calls : List Call} {slot : Nat} {op : Operation} :
    (slot, op) ∈ slotsOf calls ↔ ∃ c, calls[slot]? = some c ∧ c.operation = op := by
  simp only [slotsOf, List.mem_mapIdx, Prod.mk.injEq]
  constructor
  · rintro ⟨i, hi, rfl, rfl⟩
    exact ⟨calls[i], List.getElem?_eq_getElem hi, rfl⟩
  · rintro ⟨c, hc, rfl⟩
    obtain ⟨hi, rfl⟩ := List.getElem?_eq_some_iff.mp hc
    exact ⟨slot, hi, rfl, rfl⟩

theorem nodup_slotsOf (calls : List Call) : (slotsOf calls).Nodup := by
  refine List.Nodup.of_map Prod.fst ?_
  have hplaces : (slotsOf calls).map Prod.fst = List.range calls.length := by
    refine List.ext_getElem (by simp [slotsOf]) fun i _ _ => ?_
    simp [slotsOf]
  rw [hplaces]
  exact List.nodup_range

structure Situation where
  console : Console
  busy : Option (Activity × Slots)
  ahead : List Action

namespace Situation

/-- What an activity waits for when it goes on in some way, besides calls that it waited for
before; none when a fault was raised. -/
def busyAfter (others : Slots) : Progress → Option (Option (Activity × Slots))
  | .waiting a calls => some (some (a, others ++ slotsOf calls))
  | .finished _ => some none
  | .aborted _ => none

variable {slots others : Slots}

/-! ## How many calls are left -/

def Covers (outcomes : List (Option Outcome)) (slots : Slots) : Prop :=
  slots.Nodup ∧ ∀ slot op, (slot, op) ∈ slots ↔ op = .create ∧ outcomes[slot]? = some none

/-- The calls that an activity waits for suit its phase: those of the files that are not known,
or a single one. -/
def Fits (phase : Phase) (slots : Slots) : Prop :=
  match phase with
  | .uploading outcomes _ => slots ≠ [] ∧ Covers outcomes slots
  | _ => ∃ op, slots = [(0, op)]

theorem ne_nil_of_fits {phase : Phase} (h : Fits phase slots) : slots ≠ [] := by
  cases phase with
  | uploading outcomes failure => exact h.1
  | _ =>
      obtain ⟨op, rfl⟩ := h
      exact List.cons_ne_nil _ _

def callsLeft (phase : Phase) (slots : Slots) : Nat :=
  match phase with
  | .listing .. | .describing .. | .reading | .calling => 1
  | .locating _ | .measuring _ | .changing => 2
  | .uploading .. => slots.length + 1

/-- When the activity waits on, its calls suit its phase, and it has fewer left than the bound. -/
def Bounded (bound : Nat) (others : Slots) (p : Progress) : Prop :=
  ∀ a calls, p = .waiting a calls →
    Fits a.phase (others ++ slotsOf calls) ∧ callsLeft a.phase (others ++ slotsOf calls) < bound

section Bounds

variable {bound : Nat} (c : Console) (control : Option String)

theorem bounded_finish (others : Slots) (r : Except Fault Answer) :
    Bounded bound others (Activity.finish c control r).2 := by
  intro a calls h
  cases r <;> cases h

theorem bounded_complain (others : Slots) (message : Value) (answer : Answer) :
    Bounded bound others (Activity.complain c control message answer).2 :=
  bounded_finish _ control others _

theorem bounded_display (others : Slots) (page : Page) (answer : Answer) :
    Bounded bound others (Activity.display c control page answer).2 :=
  bounded_finish _ control others _

theorem bounded_single {a : Activity} {call : Call} (hfits : ∀ slots, Fits a.phase slots ↔
    ∃ op, slots = [(0, op)]) (hleft : callsLeft a.phase [(0, call.operation)] < bound) :
    Bounded bound [] (.waiting a [call]) := by
  intro a' calls h
  cases h
  exact ⟨(hfits _).mpr ⟨call.operation, rfl⟩, hleft⟩

theorem bounded_follow (hbound : 1 < bound) (after : After) (m : Navigation × Move) :
    Bounded bound [] (Activity.follow c control after m).2 := by
  obtain ⟨n, move⟩ := m
  cases move with
  | stay moved => exact bounded_finish _ control [] _
  | fetch f => exact bounded_single (fun _ => Iff.rfl) hbound

theorem bounded_conclude (others : Slots) (after : After) (moved : Bool) :
    Bounded bound others (Activity.conclude c control after moved).2 := by
  unfold Activity.conclude
  split <;> exact bounded_finish _ control others _

theorem bounded_uploaded (hbound : 1 < bound) (outcomes : List Outcome) (failure : Option Value) :
    Bounded bound [] (Activity.uploaded c control outcomes failure).2 := by
  unfold Activity.uploaded
  split
  · exact bounded_follow c control hbound _ _
  · exact bounded_conclude c control [] _ false

end Bounds

theorem allKnown?_eq_none_iff {outcomes : List (Option Outcome)} :
    Activity.allKnown? outcomes = none ↔ none ∈ outcomes := by
  induction outcomes with
  | nil => simp [Activity.allKnown?]
  | cons o outcomes ih => cases o <;> simp [Activity.allKnown?, ih]

theorem covers_set {outcomes : List (Option Outcome)} {slot : Nat} {op : Operation}
    (hcovers : Covers outcomes slots) (hslots : slots.Perm ((slot, op) :: others)) (o : Outcome) :
    Covers (outcomes.set slot (some o)) others := by
  obtain ⟨hnodup, hmem⟩ := hcovers
  obtain ⟨hfresh, hothers⟩ := List.nodup_cons.mp (hslots.nodup_iff.mp hnodup)
  refine ⟨hothers, fun other op' => ?_⟩
  have hold : (other, op') ∈ slots ↔ (other, op') = (slot, op) ∨ (other, op') ∈ others := by
    rw [hslots.mem_iff, List.mem_cons]
  have hop : op = .create := ((hmem slot op).mp (hslots.mem_iff.mpr List.mem_cons_self)).1
  rw [List.getElem?_set]
  by_cases hsame : slot = other
  · subst hsame
    refine iff_of_false (fun hin => ?_) ?_
    · obtain rfl : op' = op := ((hmem slot op').mp (hold.mpr (.inr hin))).1.trans hop.symm
      exact hfresh hin
    · rintro ⟨-, hnone⟩
      simp only [if_true] at hnone
      split at hnone <;> cases hnone
  · have hne : (other, op') ≠ (slot, op) := fun heq => hsame (congrArg Prod.fst heq).symm
    rw [if_neg hsame, ← hmem other op', hold]
    exact ⟨.inr, fun h => h.resolve_left hne⟩

theorem Covers.eq_nil_iff {outcomes : List (Option Outcome)} (h : Covers outcomes slots) :
    slots = [] ↔ none ∉ outcomes := by
  constructor
  · rintro rfl hmem
    obtain ⟨slot, hslot⟩ := List.mem_iff_getElem?.mp hmem
    exact absurd ((h.2 slot .create).mpr ⟨rfl, hslot⟩) List.not_mem_nil
  · intro hnone
    refine List.eq_nil_iff_forall_not_mem.mpr fun ⟨slot, op⟩ hmem => hnone ?_
    exact List.mem_of_getElem? ((h.2 slot op).mp hmem).2

theorem others_of_single {slot : Nat} {op : Operation} (hfits : ∃ op, slots = [(0, op)])
    (hslots : slots.Perm ((slot, op) :: others)) : others = [] := by
  obtain ⟨op', rfl⟩ := hfits
  exact (List.cons.inj (List.perm_singleton.mp hslots.symm)).2

theorem bounded_gather {outcomes : List (Option Outcome)} {bound : Nat} (hbound : 1 < bound)
    (failure : Option Value) (hcovers : Covers outcomes others)
    (hleft : others.length + 1 < bound) (c : Console) (control : Option String) :
    Bounded bound others (Activity.gather c control outcomes failure []).2 := by
  unfold Activity.gather
  split
  · next all hall =>
      obtain rfl : others = [] := by
        rw [hcovers.eq_nil_iff, ← allKnown?_eq_none_iff, hall]
        exact Option.some_ne_none all
      exact bounded_uploaded c control hbound all failure
  · next hnone =>
      intro a calls h
      cases h
      rw [show slotsOf [] = [] from rfl, List.append_nil]
      refine ⟨⟨?_, hcovers⟩, hleft⟩
      rw [Ne, hcovers.eq_nil_iff, not_not]
      exact allKnown?_eq_none_iff.mp hnone

theorem bounded_preview (c : Console) {bound : Nat} (hbound : 1 < bound) (path : String)
    (length : Int) : Bounded bound [] (Activity.preview c path length).2 := by
  unfold Activity.preview
  dsimp only
  split
  · exact bounded_single (fun _ => Iff.rfl) hbound
  · exact bounded_finish c none [] _

theorem covers_upload (directory : String) (files : List LocalFile) :
    Covers (files.map fun _ => none)
      (slotsOf (files.map fun f => .create (Path.child directory f.name) f.content)) := by
  refine ⟨nodup_slotsOf _, fun slot op => ?_⟩
  rw [mem_slotsOf_iff, List.getElem?_map, List.getElem?_map]
  cases files[slot]? with
  | none => simp
  | some f => simp [Call.create, eq_comm]

theorem bounded_begin (c : Console) (action : Action) :
    Bounded (Course.callsOf action + 1) [] (Activity.begin c action).2 := by
  have hfollow (after : After) (m : Navigation × Move) :
      Bounded 3 [] (Activity.follow c none after m).2 :=
    bounded_follow c none (by decide) after m
  have hfinish (c : Console) (r : Except Fault Answer) :
      Bounded 3 [] (Activity.finish c none r).2 := bounded_finish c none [] r
  cases action with
  | openEntry path kind =>
      simp only [Activity.begin, Activity.openEntry]
      split
      · exact hfollow _ _
      · split
        · exact bounded_single (fun _ => Iff.rfl) (Nat.lt_succ_self 2)
        · exact hfinish c _
  | showBlock sheet index =>
      simp only [Activity.begin, Activity.showBlock]
      split
      · exact bounded_display c none [] _ _
      · exact hfinish c _
  | change ch control =>
      simp only [Activity.begin, Activity.change]
      split
      · exact bounded_single (fun _ => Iff.rfl) (Nat.lt_succ_self 2)
      · exact nofun
      · exact nofun
  | upload directory files control =>
      simp only [Activity.begin, Activity.upload, Activity.gather]
      split
      · exact bounded_uploaded _ control (Nat.lt_add_left files.length Nat.one_lt_two) _ none
      · next hnone =>
          intro a calls h
          cases h
          have hcovers := covers_upload (Path.normalize directory) files
          refine ⟨⟨?_, hcovers⟩, ?_⟩
          · rw [List.nil_append, Ne, hcovers.eq_nil_iff, not_not]
            exact allKnown?_eq_none_iff.mp hnone
          · simp [callsLeft, Course.callsOf, slotsOf]
  | preview path length => exact bounded_preview c (by decide : 1 < 3) path length
  | tail path => exact bounded_single (fun _ => Iff.rfl) (Nat.lt_succ_self 2)
  | call call => exact bounded_single (fun _ => Iff.rfl) (by decide : 1 < 3)
  | setFragment fragment => exact hfinish _ _
  | select path name => exact hfinish _ _
  | showError message => exact hfinish _ _
  | clearError => exact hfinish _ _
  | _ => exact hfollow _ _

def IsSound (x : Situation) : Prop := ∀ a slots, x.busy = some (a, slots) → Fits a.phase slots

def budget (x : Situation) : Nat :=
  (x.busy.elim 0 fun (a, slots) => callsLeft a.phase slots) +
    x.ahead.foldr (Course.callsOf · + ·) 0

theorem isSound_idle (c : Console) (ahead : List Action) : IsSound ⟨c, none, ahead⟩ := nofun

theorem Bounded.of_busy {bound : Nat} {p : Progress} (h : Bounded bound others p)
    (hbound : 0 < bound) {busy : Option (Activity × Slots)} (hbusy : busyAfter others p = some busy)
    (c : Console) (ahead : List Action) :
    IsSound ⟨c, busy, ahead⟩ ∧
      budget ⟨c, busy, ahead⟩ < bound + ahead.foldr (Course.callsOf · + ·) 0 := by
  cases p with
  | waiting a calls =>
      cases hbusy
      obtain ⟨hfits, hleft⟩ := h a calls rfl
      refine ⟨fun a' slots' heq => ?_, Nat.add_lt_add_right hleft _⟩
      cases heq
      exact hfits
  | finished answer =>
      cases hbusy
      exact ⟨nofun, Nat.add_lt_add_right hbound _⟩
  | aborted why => cases hbusy

theorem callsLeft_pos (phase : Phase) (slots : Slots) : 0 < callsLeft phase slots := by
  cases phase <;> exact Nat.succ_pos _

/-! ## Steps -/

variable [Client]

/-- An action begins, or a call comes to an outcome. -/
inductive Step : Situation → Option Record → Situation → Prop
  | begins {c : Console} {action : Action} {busy : Option (Activity × Slots)}
      {rest : List Action} (h : busyAfter [] (Activity.begin c action).2 = some busy) :
      Step ⟨c, none, action :: rest⟩ none ⟨(Activity.begin c action).1, busy, rest⟩
  | returns {c : Console} {a : Activity} {slots others : Slots} {slot : Nat} {op : Operation}
      {o : Outcome} {busy : Option (Activity × Slots)} {rest : List Action}
      (hslots : slots.Perm ((slot, op) :: others)) (hspeaks : o.Speaks)
      (h : busyAfter others (a.resume c slot o).2 = some busy) :
      Step ⟨c, some (a, slots), rest⟩
        (some ⟨op, o, (a.resume c slot o).1.navigation.committed != c.navigation.committed⟩)
        ⟨(a.resume c slot o).1, busy, rest⟩

inductive Reaches : Situation → List Record → Situation → Prop
  | refl (x : Situation) : Reaches x [] x
  | head {x y z : Situation} {record : Option Record} {records : List Record}
      (hstep : Step x record y) (hrest : Reaches y records z) :
      Reaches x (record.toList ++ records) z

variable {x y z : Situation} {c : Console} {a : Activity} {records : List Record}
  {ahead : List Action} {action : Action} {last : Console}

theorem Reaches.single {record : Option Record} (h : Step x record y) :
    Reaches x record.toList y := by
  have hsingle := Reaches.head h (.refl y)
  rwa [List.append_nil] at hsingle

theorem Reaches.trans {later : List Record} (hxy : Reaches x records y) (hyz : Reaches y later z) :
    Reaches x (records ++ later) z := by
  induction hxy with
  | refl x => exact hyz
  | head hstep hrest ih =>
      rw [List.append_assoc]
      exact .head hstep (ih hyz)

/-! ## How a course goes on to its end -/

theorem Reaches.of_idle (h : Reaches ⟨c, none, []⟩ records ⟨last, none, []⟩) :
    records = [] ∧ last = c := by
  cases h with
  | refl => exact ⟨rfl, rfl⟩
  | head hstep hrest => cases hstep

theorem Reaches.of_action (h : Reaches ⟨c, none, action :: ahead⟩ records ⟨last, none, []⟩) :
    ∃ busy, busyAfter [] (Activity.begin c action).2 = some busy ∧
      Reaches ⟨(Activity.begin c action).1, busy, ahead⟩ records ⟨last, none, []⟩ := by
  cases h with
  | head hstep hrest =>
      cases hstep with
      | begins hbusy => exact ⟨_, hbusy, hrest⟩

theorem Reaches.of_busy (h : Reaches ⟨c, some (a, slots), ahead⟩ records ⟨last, none, []⟩) :
    ∃ (slot : Nat) (op : Operation) (others : Slots) (o : Outcome)
      (busy : Option (Activity × Slots)) (later : List Record),
      slots.Perm ((slot, op) :: others) ∧ o.Speaks ∧
      busyAfter others (a.resume c slot o).2 = some busy ∧
      records =
        ⟨op, o, (a.resume c slot o).1.navigation.committed != c.navigation.committed⟩ :: later ∧
      Reaches ⟨(a.resume c slot o).1, busy, ahead⟩ later ⟨last, none, []⟩ := by
  cases h with
  | head hstep hrest =>
      cases hstep with
      | returns hslots hspeaks hbusy => exact ⟨_, _, _, _, _, _, hslots, hspeaks, hbusy, rfl, hrest⟩

theorem Reaches.of_single {op : Operation}
    (h : Reaches ⟨c, some (a, [(0, op)]), ahead⟩ records ⟨last, none, []⟩) :
    ∃ (o : Outcome) (busy : Option (Activity × Slots)) (later : List Record), o.Speaks ∧
      busyAfter [] (a.resume c 0 o).2 = some busy ∧
      records =
        ⟨op, o, (a.resume c 0 o).1.navigation.committed != c.navigation.committed⟩ :: later ∧
      Reaches ⟨(a.resume c 0 o).1, busy, ahead⟩ later ⟨last, none, []⟩ := by
  obtain ⟨slot, op', others, o, busy, later, hslots, hspeaks, hbusy, hrecords, hrest⟩ := h.of_busy
  obtain ⟨hsame, rfl⟩ := List.cons.inj (List.perm_singleton.mp hslots.symm)
  obtain ⟨rfl, rfl⟩ := Prod.mk.inj hsame
  exact ⟨o, busy, later, hspeaks, hbusy, hrecords, hrest⟩

theorem bounded_resume (hfits : Fits a.phase slots) {slot : Nat} {op : Operation}
    (hslots : slots.Perm ((slot, op) :: others)) (c : Console) (o : Outcome) :
    Bounded (callsLeft a.phase slots) others (a.resume c slot o).2 := by
  obtain ⟨control, phase⟩ := a
  cases phase with
  | uploading outcomes failure =>
      have hlength : slots.length = others.length + 1 := hslots.length_eq
      refine bounded_gather ?_ _ (covers_set hfits.2 hslots o) ?_ c control
      · exact Nat.lt_of_lt_of_eq (by omega) (congrArg (· + 1) hlength).symm
      · exact Nat.lt_of_lt_of_eq (Nat.lt_succ_self _) (congrArg (· + 1) hlength).symm
  | listing f after =>
      obtain rfl := others_of_single hfits hslots
      simp only [Activity.resume, Activity.listed]
      split
      · exact bounded_conclude _ control [] after _
      · exact bounded_finish _ control [] _
  | locating path =>
      obtain rfl := others_of_single hfits hslots
      cases o with
      | ok located => exact bounded_single (fun _ => Iff.rfl) Nat.one_lt_two
      | error why => exact bounded_complain c control [] _ _
  | describing path located =>
      simp only [Activity.resume, Activity.described]
      split
      · exact bounded_finish c control others _
      · split
        · exact bounded_display c control others _ _
        · split
          · exact bounded_complain c control others _ _
          · exact bounded_finish c control others _
  | measuring path =>
      obtain rfl := others_of_single hfits hslots
      simp only [Activity.resume, Activity.measured]
      split
      · exact bounded_complain c control [] _ _
      · split
        · exact bounded_preview c Nat.one_lt_two path _
        · exact bounded_finish c control [] _
  | reading =>
      cases o with
      | ok content => exact bounded_display c control others _ _
      | error why => exact bounded_complain c control others _ _
  | changing =>
      obtain rfl := others_of_single hfits hslots
      cases o with
      | ok v => exact bounded_follow c control Nat.one_lt_two _ _
      | error why => exact bounded_complain c control [] _ _
  | calling => exact bounded_finish c control others _

theorem isSound_step {record : Option Record} (hstep : Step x record y) (h : x.IsSound) :
    y.IsSound ∧ y.budget + record.toList.length ≤ x.budget := by
  cases hstep with
  | @begins c action busy rest hbusy =>
      obtain ⟨hsound, hless⟩ :=
        (bounded_begin c action).of_busy (Nat.succ_pos _) hbusy (Activity.begin c action).1 rest
      refine ⟨hsound, ?_⟩
      rw [Nat.add_right_comm] at hless
      simpa [budget] using Nat.le_of_lt_succ hless
  | @returns c a slots others slot op o busy rest hslots hspeaks hbusy =>
      obtain ⟨hsound, hless⟩ := (bounded_resume (h a slots rfl) hslots c o).of_busy
        (callsLeft_pos a.phase slots) hbusy (a.resume c slot o).1 rest
      exact ⟨hsound, hless⟩

theorem isSound_reaches (hreaches : Reaches x records y) (h : x.IsSound) :
    y.IsSound ∧ y.budget + records.length ≤ x.budget := by
  induction hreaches with
  | refl x => exact ⟨h, Nat.le_refl _⟩
  | head hstep hrest ih =>
      obtain ⟨hsound, hless⟩ := isSound_step hstep h
      obtain ⟨hlast, hbudget⟩ := ih hsound
      refine ⟨hlast, ?_⟩
      rw [List.length_append]
      omega

end Situation

end CommandLine

end HdfsBrowser
