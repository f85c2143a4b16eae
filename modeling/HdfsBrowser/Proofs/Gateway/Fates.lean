import HdfsBrowser.Proofs.Computation
import HdfsBrowser.Proofs.Gateway.Resolution
import Mathlib.Data.List.Induction
import Mathlib.Data.List.Perm.Basic
import Mathlib.Data.List.ReduceOption

/-!
# Calls that are made together

Each of them is an exchange of its own: a script of replies, whatever their
order, gives every call the replies to its own requests and to no other's.  So
one more reply moves the fate of one call and leaves those of the others.
-/

namespace HdfsBrowser

/-- Replies to calls that are made together, each with the place of its call, in order. -/
abbrev Script := List (Nat × Reply)

namespace Script

def given (past : Script) (i : Nat) : List Reply := (past.filter (·.1 == i)).map (·.2)

@[simp] theorem given_nil (i : Nat) : given [] i = [] := rfl

theorem given_concat_self (past : Script) (i : Nat) (r : Reply) :
    given (past ++ [(i, r)]) i = past.given i ++ [r] := by
  simp [given]

theorem given_concat_of_ne (past : Script) {i k : Nat} (hne : i ≠ k) (r : Reply) :
    given (past ++ [(i, r)]) k = past.given k := by
  simp [given, hne]

end Script

theorem mapIdx_given_concat {α : Type} (f : Nat → Call → List Reply → α) (calls : List Call)
    (past : Script) (i : Nat) (r : Reply) {c : Call} (hc : calls[i]? = some c) :
    (calls.mapIdx fun k c => f k c (Script.given (past ++ [(i, r)]) k)) =
      (calls.mapIdx fun k c => f k c (past.given k)).set i (f i c (past.given i ++ [r])) := by
  refine List.ext_getElem? fun k => ?_
  rw [List.getElem?_set, List.getElem?_mapIdx, List.getElem?_mapIdx]
  by_cases hk : i = k
  · subst hk
    obtain ⟨hlt, rfl⟩ := List.getElem?_eq_some_iff.mp hc
    simp [hlt, Script.given_concat_self]
  · simp [hk, Script.given_concat_of_ne past hk]

theorem reduceOption_set_perm {α : Type} {xs : List (Option α)} {i : Nat} {x : Option α}
    (h : xs[i]? = some x) (y : Option α) :
    xs.reduceOption.Perm (x.toList ++ (xs.eraseIdx i).reduceOption) ∧
      (xs.set i y).reduceOption.Perm (y.toList ++ (xs.eraseIdx i).reduceOption) := by
  obtain ⟨hlt, rfl⟩ := List.getElem?_eq_some_iff.mp h
  have hlt' : i < (xs.set i y).length := by simpa using hlt
  have hsplit (o : Option α) (os : List (Option α)) :
      (o :: os).reduceOption = o.toList ++ os.reduceOption := by
    cases o <;> rfl
  constructor
  · rw [← hsplit]
    exact ((List.getElem_cons_eraseIdx_perm hlt).filterMap id).symm
  · rw [← hsplit]
    have hperm := (List.getElem_cons_eraseIdx_perm hlt').filterMap id
    rw [List.getElem_set_self, List.eraseIdx_set_eq] at hperm
    exact hperm.symm

/-! ## One call -/

namespace Resolution

def outcome? : Resolution → Option Outcome
  | .returned o => some o
  | _ => none

def IsFinal (x : Resolution) : Prop := ∀ e, x ≠ .pending e

theorem isFinal_returned (o : Outcome) : IsFinal (.returned o) := nofun

theorem isFinal_raised (f : Fault) : IsFinal (.raised f) := nofun

end Resolution

variable [Client]

theorem Exchange.afterAll_append_of_end {e : Exchange} {replies : List Reply}
    (h : ∀ e', e.afterAll replies ≠ .next e') (rest : List Reply) :
    e.afterAll (replies ++ rest) = e.afterAll replies := by
  induction replies generalizing e with
  | nil => exact absurd rfl (h e)
  | cons first replies ih =>
      rw [List.cons_append]
      cases hreceive : e.receive first with
      | next next =>
          rw [afterAll_of_next hreceive] at h
          rw [afterAll_of_next hreceive, afterAll_of_next hreceive, ih h]
      | done response => simp only [afterAll, hreceive]
      | failed reason => simp only [afterAll, hreceive]
      | raised f => simp only [afterAll, hreceive]

namespace Draft

variable {d d' : Draft} {hops : List Reply}

def after (d : Draft) (replies : List Reply) : Option Draft :=
  match d.resolution replies with
  | .pending e => some { d with exchange := e }
  | _ => none

theorem after_eq_some_iff :
    d.after hops = some d' ↔
      ∃ e, d.resolution hops = .pending e ∧ d' = { d with exchange := e } := by
  unfold after
  cases d.resolution hops <;> simp [eq_comm]

theorem resolution_of_after (h : d.after hops = some d') (rest : List Reply) :
    d.resolution (hops ++ rest) = d'.resolution rest := by
  obtain ⟨e, hpending, rfl⟩ := after_eq_some_iff.mp h
  exact resolution_append hpending rest

theorem after_of_after (h : d.after hops = some d') (rest : List Reply) :
    d.after (hops ++ rest) = d'.after rest := by
  unfold after
  rw [resolution_of_after h]
  obtain ⟨e, -, rfl⟩ := after_eq_some_iff.mp h
  rfl

end Draft

namespace Call

variable {settings : Settings} {c : Call} {replies : List Reply}

/-- The request for which a call still waits after some replies, when it was made in a place. -/
def leftover (settings : Settings) (i : Nat) (c : Call) (replies : List Reply) : Option Draft :=
  match Draft.ofCall settings i c with
  | .error _ => none
  | .ok d => d.after replies

def opening? (settings : Settings) (c : Call) : Option Request :=
  (c.request settings).toOption.map (·.2)

theorem ofCall_eq (settings : Settings) (i : Nat) (c : Call) :
    Draft.ofCall settings i c =
      (c.request settings).map fun (address, request) =>
        ⟨i, c.operation, address, .start request⟩ := by
  unfold Draft.ofCall
  cases c.request settings <;> rfl

theorem exists_of_ofCall {i : Nat} {d : Draft} (h : Draft.ofCall settings i c = .ok d) :
    ∃ address request, c.request settings = .ok (address, request) ∧
      d = ⟨i, c.operation, address, .start request⟩ := by
  rw [ofCall_eq] at h
  cases hrequest : c.request settings with
  | error why => simp [hrequest, Except.map] at h
  | ok sent =>
      obtain ⟨address, request⟩ := sent
      simp only [hrequest, Except.map, Except.ok.injEq] at h
      exact ⟨address, request, rfl, h.symm⟩

theorem resolution_append_of_isFinal (h : (c.resolution settings replies).IsFinal)
    (rest : List Reply) :
    c.resolution settings (replies ++ rest) = c.resolution settings replies := by
  unfold resolution at h ⊢
  cases hdraft : Draft.ofCall settings 0 c with
  | error why => rfl
  | ok d =>
      simp only [hdraft] at h
      have hend : ∀ e, d.exchange.afterAll replies ≠ .next e := fun e he =>
        h e (Draft.resolution_eq_pending_iff.mpr he)
      simp only [Draft.resolution, Exchange.afterAll_append_of_end hend]

theorem resolution_nil (settings : Settings) (c : Call) :
    c.resolution settings [] =
      match c.request settings with
      | .ok (_, request) => .pending (.start request)
      | .error why => .raised (.address why) := by
  unfold resolution
  rw [ofCall_eq]
  cases c.request settings <;> rfl

theorem resolution_nil_ne_returned (settings : Settings) (c : Call) (o : Outcome) :
    c.resolution settings [] ≠ .returned o := by
  rw [resolution_nil]
  split <;> nofun

theorem leftover_nil (settings : Settings) (i : Nat) (c : Call) :
    c.leftover settings i [] = (Draft.ofCall settings i c).toOption := by
  unfold leftover
  cases Draft.ofCall settings i c <;> rfl

theorem resolution_of_ofCall {i : Nat} {d : Draft} (h : Draft.ofCall settings i c = .ok d)
    (replies : List Reply) : c.resolution settings replies = d.resolution replies := by
  obtain ⟨address, request, hrequest, rfl⟩ := exists_of_ofCall h
  unfold resolution
  rw [ofCall_eq, hrequest]
  rfl

theorem resolution_of_refused {i : Nat} {why : UrlFault}
    (h : Draft.ofCall settings i c = .error why) (replies : List Reply) : c.resolution settings replies = .raised (.address why) := by
  have hrequest : c.request settings = .error why := by
    rwa [ofCall_eq, map_eq_error_iff] at h
  unfold resolution
  rw [ofCall_eq, hrequest]
  rfl

theorem leftover_of_ofCall {i : Nat} {d : Draft} (h : Draft.ofCall settings i c = .ok d)
    (replies : List Reply) : c.leftover settings i replies = d.after replies := by
  unfold leftover
  rw [h]

theorem exists_of_leftover {i : Nat} {d : Draft} (h : c.leftover settings i replies = some d) :
    ∃ d₀, Draft.ofCall settings i c = .ok d₀ ∧ d₀.after replies = some d := by
  unfold leftover at h
  cases hcall : Draft.ofCall settings i c with
  | error why => simp [hcall] at h
  | ok d₀ => exact ⟨d₀, rfl, by simpa [hcall] using h⟩

theorem shape_of_leftover {i : Nat} {d : Draft} (h : c.leftover settings i replies = some d) :
    d.slot = i ∧ d.operation = c.operation := by
  obtain ⟨d₀, hcall, hafter⟩ := exists_of_leftover h
  obtain ⟨e, -, rfl⟩ := Draft.after_eq_some_iff.mp hafter
  obtain ⟨address, request, -, rfl⟩ := exists_of_ofCall hcall
  exact ⟨rfl, rfl⟩

theorem resolution_of_leftover {i : Nat} {d : Draft} (h : c.leftover settings i replies = some d)
    (rest : List Reply) : c.resolution settings (replies ++ rest) = d.resolution rest := by
  obtain ⟨d₀, hcall, hafter⟩ := exists_of_leftover h
  rw [resolution_of_ofCall hcall, Draft.resolution_of_after hafter]

theorem leftover_of_leftover {i : Nat} {d : Draft} (h : c.leftover settings i replies = some d)
    (rest : List Reply) : c.leftover settings i (replies ++ rest) = d.after rest := by
  obtain ⟨d₀, hcall, hafter⟩ := exists_of_leftover h
  rw [leftover_of_ofCall hcall, Draft.after_of_after hafter]

theorem pending_of_leftover {i : Nat} {d : Draft} (h : c.leftover settings i replies = some d) :
    c.resolution settings replies = .pending d.exchange := by
  have hnow := resolution_of_leftover h []
  rwa [List.append_nil] at hnow

theorem exists_leftover {e : Exchange} (h : c.resolution settings replies = .pending e) (i : Nat) :
    ∃ d, c.leftover settings i replies = some d := by
  cases hcall : Draft.ofCall settings i c with
  | error why =>
      unfold resolution at h
      rw [ofCall_eq] at h hcall
      cases hrequest : c.request settings with
      | ok sent => simp [hrequest, Except.map] at hcall
      | error why => simp [hrequest, Except.map] at h
  | ok d₀ =>
      rw [resolution_of_ofCall hcall] at h
      refine ⟨{ d₀ with exchange := e }, ?_⟩
      rw [leftover_of_ofCall hcall]
      exact Draft.after_eq_some_iff.mpr ⟨e, h, rfl⟩

end Call

/-! ## All calls -/

section

variable (settings : Settings) (calls : List Call)

/-- What the calls have come to, each by its own replies. -/
def fates (past : Script) : List Resolution :=
  calls.mapIdx fun i c => c.resolution settings (past.given i)

def leftovers (past : Script) : List (Option Draft) :=
  calls.mapIdx fun i c => c.leftover settings i (past.given i)

def failure? (past : Script) (i : Nat) (r : Reply) : Option Value :=
  match (fates settings calls past)[i]?, (fates settings calls (past ++ [(i, r)]))[i]? with
  | some (.pending _), some (.returned (.error why)) => some why.message
  | _, _ => none

/-- The messages of the calls that a script makes fail after some replies, in the order in which
they do. -/
def failures (past : Script) : Script → List Value
  | [] => []
  | (i, r) :: rest => (failure? settings calls past i r).toList ++ failures (past ++ [(i, r)]) rest

def lastFailure? (past : Script) : Option Value := (failures settings calls [] past).getLast?

end

variable {settings : Settings} {calls : List Call} {past : Script}

theorem getElem?_fates (i : Nat) :
    (fates settings calls past)[i]? =
      calls[i]?.map fun c => c.resolution settings (past.given i) := List.getElem?_mapIdx

theorem getElem?_leftovers (i : Nat) :
    (leftovers settings calls past)[i]? =
      calls[i]?.map fun c => c.leftover settings i (past.given i) := List.getElem?_mapIdx

@[simp] theorem length_fates : (fates settings calls past).length = calls.length :=
  List.length_mapIdx

theorem fates_nil (settings : Settings) (calls : List Call) :
    fates settings calls [] = calls.map fun c => c.resolution settings [] := by
  refine List.ext_getElem? fun i => ?_
  rw [getElem?_fates, List.getElem?_map]
  rfl

theorem outcomes_unique {os os' : List Outcome}
    (h : fates settings calls past = os.map .returned)
    (h' : fates settings calls past = os'.map .returned) : os = os' :=
  List.map_injective_iff.mpr (fun _ _ => Resolution.returned.inj) (h.symm.trans h')

theorem mem_fates_nil {x : Resolution} :
    x ∈ fates settings calls [] ↔ ∃ c ∈ calls, c.resolution settings [] = x := by
  rw [fates_nil, List.mem_map]

theorem fates_concat {i : Nat} {c : Call} (hc : calls[i]? = some c) (r : Reply) :
    fates settings calls (past ++ [(i, r)]) =
      (fates settings calls past).set i (c.resolution settings (past.given i ++ [r])) :=
  mapIdx_given_concat (fun _ c replies => c.resolution settings replies) calls past i r hc

theorem leftovers_concat {i : Nat} {c : Call} (hc : calls[i]? = some c) (r : Reply) :
    leftovers settings calls (past ++ [(i, r)]) =
      (leftovers settings calls past).set i (c.leftover settings i (past.given i ++ [r])) :=
  mapIdx_given_concat (fun i c replies => c.leftover settings i replies) calls past i r hc

/-! ## Requests that wait -/

theorem exists_of_mem_leftovers {d : Draft}
    (h : d ∈ (leftovers settings calls past).reduceOption) :
    ∃ c, calls[d.slot]? = some c ∧ c.leftover settings d.slot (past.given d.slot) = some d := by
  obtain ⟨i, hi⟩ := List.mem_iff_getElem?.mp (List.reduceOption_mem_iff.mp h)
  rw [getElem?_leftovers] at hi
  obtain ⟨c, hc, hleft⟩ := Option.map_eq_some_iff.mp hi
  obtain ⟨rfl, -⟩ := Call.shape_of_leftover hleft
  exact ⟨c, hc, hleft⟩

section

variable {d : Draft} (hwaits : d ∈ (leftovers settings calls past).reduceOption)
include hwaits

theorem getElem?_leftovers_of_waits :
    (leftovers settings calls past)[d.slot]? = some (some d) := by
  obtain ⟨c, hc, hleft⟩ := exists_of_mem_leftovers hwaits
  rw [getElem?_leftovers, hc, Option.map_some, hleft]

theorem getElem?_fates_of_waits :
    (fates settings calls past)[d.slot]? = some (.pending d.exchange) := by
  obtain ⟨c, hc, hleft⟩ := exists_of_mem_leftovers hwaits
  rw [getElem?_fates, hc, Option.map_some, Call.pending_of_leftover hleft]

theorem fates_of_waits (r : Reply) :
    fates settings calls (past ++ [(d.slot, r)]) =
      (fates settings calls past).set d.slot (d.resolution [r]) := by
  obtain ⟨c, hc, hleft⟩ := exists_of_mem_leftovers hwaits
  rw [fates_concat hc, Call.resolution_of_leftover hleft]

theorem leftovers_of_waits (r : Reply) :
    leftovers settings calls (past ++ [(d.slot, r)]) =
      (leftovers settings calls past).set d.slot (d.after [r]) := by
  obtain ⟨c, hc, hleft⟩ := exists_of_mem_leftovers hwaits
  rw [leftovers_concat hc, Call.leftover_of_leftover hleft]

theorem getElem?_fates_concat_of_waits (r : Reply) :
    (fates settings calls (past ++ [(d.slot, r)]))[d.slot]? = some (d.resolution [r]) := by
  obtain ⟨hlt, -⟩ := List.getElem?_eq_some_iff.mp (getElem?_fates_of_waits hwaits)
  rw [fates_of_waits hwaits, List.getElem?_set_self hlt]

theorem mem_fates_of_waits (r : Reply) :
    d.resolution [r] ∈ fates settings calls (past ++ [(d.slot, r)]) :=
  List.mem_of_getElem? (getElem?_fates_concat_of_waits hwaits r)

theorem unraised_of_waits {r : Reply} (hraised : ∀ f, .raised f ∉ fates settings calls past)
    (hreply : ∀ f, d.resolution [r] ≠ .raised f) (f : Fault) :
    .raised f ∉ fates settings calls (past ++ [(d.slot, r)]) := by
  rw [fates_of_waits hwaits]
  intro hmem
  rcases List.mem_or_eq_of_mem_set hmem with hold | hnew
  · exact hraised f hold
  · exact hreply f hnew.symm

theorem perm_leftovers_of_waits {ds : List Draft}
    (hperm : (d :: ds).Perm (leftovers settings calls past).reduceOption) (r : Reply) :
    (ds ++ (d.after [r]).toList).Perm
      (leftovers settings calls (past ++ [(d.slot, r)])).reduceOption := by
  obtain ⟨hold, hnew⟩ :=
    reduceOption_set_perm (getElem?_leftovers_of_waits hwaits) (d.after [r])
  have hrest : ds.Perm ((leftovers settings calls past).eraseIdx d.slot).reduceOption :=
    (hperm.trans hold).cons_inv
  rw [leftovers_of_waits hwaits]
  exact (List.perm_append_comm.trans (hrest.append_left _)).trans hnew.symm

theorem failure?_of_waits (r : Reply) :
    failure? settings calls past d.slot r =
      match d.resolution [r] with
      | .returned (.error why) => some why.message
      | _ => none := by
  simp only [failure?, getElem?_fates_of_waits hwaits, getElem?_fates_concat_of_waits hwaits]
  rcases d.resolution [r] with e | (why | v) | f <;> rfl

end

theorem leftovers_eq_nil {os : List Outcome}
    (h : fates settings calls past = os.map .returned) :
    (leftovers settings calls past).reduceOption = [] := by
  refine List.eq_nil_iff_forall_not_mem.mpr fun d hwaits => ?_
  have hmem := List.mem_of_getElem? (getElem?_fates_of_waits hwaits)
  simp [h] at hmem

theorem exists_waits {e : Exchange} (h : .pending e ∈ fates settings calls past) :
    ∃ d, d ∈ (leftovers settings calls past).reduceOption := by
  obtain ⟨i, hi⟩ := List.mem_iff_getElem?.mp h
  rw [getElem?_fates] at hi
  obtain ⟨c, hc, hpending⟩ := Option.map_eq_some_iff.mp hi
  obtain ⟨d, hleft⟩ := Call.exists_leftover hpending i
  have hwaits : (leftovers settings calls past)[i]? = some (some d) := by
    rw [getElem?_leftovers, hc, Option.map_some, hleft]
  exact ⟨d, List.reduceOption_mem_iff.mpr (List.mem_of_getElem? hwaits)⟩

/-! ## Failures -/

theorem failures_concat (before past : Script) (i : Nat) (r : Reply) :
    failures settings calls before (past ++ [(i, r)]) =
      failures settings calls before past ++
        (failure? settings calls (before ++ past) i r).toList := by
  induction past generalizing before with
  | nil => simp [failures]
  | cons first past ih =>
      obtain ⟨k, first⟩ := first
      simp only [List.cons_append, failures, ih, List.append_assoc, List.nil_append]

theorem lastFailure?_concat (past : Script) (i : Nat) (r : Reply) :
    lastFailure? settings calls (past ++ [(i, r)]) =
      (failure? settings calls past i r).or (lastFailure? settings calls past) := by
  unfold lastFailure?
  rw [failures_concat, List.getLast?_append, List.nil_append]
  cases failure? settings calls past i r <;> simp

theorem failure?_of_concat {i k : Nat} {r : Reply} {why : Failure}
    (hbefore : (fates settings calls past)[i]? ≠ some (.returned (.error why)))
    (h : (fates settings calls (past ++ [(k, r)]))[i]? = some (.returned (.error why))) :
    failure? settings calls past k r = some why.message := by
  rw [getElem?_fates] at hbefore
  have hfate := h
  rw [getElem?_fates] at hfate
  obtain ⟨c, hc, hfate⟩ := Option.map_eq_some_iff.mp hfate
  simp only [hc, Option.map_some, ne_eq, Option.some.injEq] at hbefore
  obtain rfl : k = i := by
    by_contra hne
    exact hbefore (Script.given_concat_of_ne past hne r ▸ hfate)
  have hpending : ∃ e, c.resolution settings (past.given k) = .pending e := by
    by_contra hfinal
    push Not at hfinal
    rw [Script.given_concat_self, Call.resolution_append_of_isFinal hfinal] at hfate
    exact hbefore hfate
  obtain ⟨e, hpending⟩ := hpending
  have hwaited : (fates settings calls past)[k]? = some (.pending e) := by
    rw [getElem?_fates, hc, Option.map_some, hpending]
  simp only [failure?, hwaited, h]

theorem message_mem_failures {i : Nat} {why : Failure}
    (h : (fates settings calls past)[i]? = some (.returned (.error why))) :
    why.message ∈ failures settings calls [] past := by
  induction past using List.reverseRec with
  | nil =>
      rw [getElem?_fates] at h
      obtain ⟨c, -, hc⟩ := Option.map_eq_some_iff.mp h
      exact absurd hc (Call.resolution_nil_ne_returned settings c _)
  | append_singleton past last ih =>
      obtain ⟨k, r⟩ := last
      rw [failures_concat, List.mem_append]
      by_cases hbefore : (fates settings calls past)[i]? = some (.returned (.error why))
      · exact .inl (ih hbefore)
      · have hfailed := failure?_of_concat hbefore h
        exact .inr (by simp [hfailed])

end HdfsBrowser
