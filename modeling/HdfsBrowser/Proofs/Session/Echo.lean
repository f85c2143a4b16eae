import HdfsBrowser.Proofs.Session.Address

/-!
# Echoes of the address

Each time navigation sets the address, the address answers with a hash change
of its own, which comes back later; several may be on their way, and they come
back in order.  Navigation remembers one published fragment only.  So an echo
is ignored when it is still remembered, or when it names the directory and no
listing is on its way; any other echo is taken for a wish of the user.
-/

namespace HdfsBrowser

namespace Journey

def caused (j : Journey) : Event → List String
  | .setFragment _ => []
  | e =>
    if (j.step e).place.fragment = j.place.fragment then [] else [(j.step e).place.fragment]

/-- Nothing is asked for, and all that changes is which fragment is remembered. -/
def Ignores (j k : Journey) : Prop :=
  ∃ published, k = ⟨{ j.place with published }, j.ahead⟩

end Journey

open Journey (Event)

structure Echoing where
  journey : Journey
  /-- The hash changes that navigation caused and that have not come back, oldest first. -/
  echoes : List String

namespace Echoing

inductive Happening where
  | event (e : Event)
  | echo

def opening (fragment : String) : Echoing := ⟨.opening fragment, []⟩

def occur (x : Echoing) (e : Event) : Echoing :=
  ⟨x.journey.step e, x.echoes ++ x.journey.caused e⟩

def step (x : Echoing) : Happening → Echoing
  | .event e => x.occur e
  | .echo =>
    match x.echoes with
    | [] => x
    | fragment :: rest => { x with echoes := rest }.occur (.hashChanged fragment)

def run (x : Echoing) (happenings : List Happening) : Echoing := happenings.foldl step x

end Echoing

/-! ## Which events set the address -/

namespace Navigation

theorem published_publish (n : Navigation) (directory : String) :
    (n.publish directory).fragment = n.fragment ∧ (n.publish directory).published = n.published ∨
      (n.publish directory).fragment ≠ n.fragment ∧
        (n.publish directory).published = some (n.publish directory).fragment := by
  unfold publish
  split
  · exact .inl ⟨rfl, rfl⟩
  · next hother => exact .inr ⟨fun hsame => hother hsame.symm, rfl⟩

theorem fragment_navigate (n : Navigation) (path : String) (force : Bool) :
    (n.navigate path force).1.fragment = n.fragment ∧
      (n.navigate path force).1.published = n.published := by
  unfold navigate
  dsimp only
  split <;> exact ⟨rfl, rfl⟩

theorem fragment_hashChanged (n : Navigation) (fragment : String) :
    (n.hashChanged fragment).1.fragment = n.fragment := by
  unfold hashChanged
  split
  · rfl
  · split
    · rfl
    · exact (fragment_navigate _ fragment false).1

end Navigation

namespace Journey

variable {j : Journey} {e : Event}

theorem published_step (hown : ∀ fragment, e ≠ .setFragment fragment)
    (hinside : ∀ fragment, e ≠ .hashChanged fragment) :
    (j.step e).place.fragment = j.place.fragment ∧
        (j.step e).place.published = j.place.published ∨
      (j.step e).place.fragment ≠ j.place.fragment ∧
        (j.step e).place.published = some (j.step e).place.fragment := by
  cases e with
  | start =>
      rw [step, place_follow, Navigation.start]
      rw [(Navigation.fragment_navigate _ _ true).1, (Navigation.fragment_navigate _ _ true).2]
      split
      · exact j.place.published_publish _
      · exact .inl ⟨rfl, rfl⟩
  | refresh =>
      rw [step, place_follow]
      exact .inl (Navigation.fragment_navigate _ _ true)
  | navigate path force =>
      rw [step, place_follow]
      exact .inl (Navigation.fragment_navigate _ path force)
  | hashChanged fragment => exact absurd rfl (hinside fragment)
  | select path name => exact .inl ⟨rfl, rfl⟩
  | answer number o =>
      cases hcommit : j.commit? (.answer number o) with
      | none =>
          rw [step]
          rcases answer_of_no_commit hcommit with hsame | ⟨f, -, -, message, hfail⟩
          · rw [hsame]
            exact .inl ⟨rfl, rfl⟩
          · rw [hfail]
            exact .inl ⟨rfl, rfl⟩
      | some f =>
          obtain ⟨-, -, l, hplace⟩ := step_of_commit hcommit
          rw [hplace]
          exact Navigation.published_publish _ f.target
  | lose number => exact .inl ⟨rfl, rfl⟩
  | setFragment fragment => exact absurd rfl (hown fragment)
  | setScreen screen => exact .inl ⟨rfl, rfl⟩

theorem fragment_step_hashChanged (j : Journey) (fragment : String) :
    (j.step (.hashChanged fragment)).place.fragment = j.place.fragment := by
  rw [step, place_follow]
  exact j.place.fragment_hashChanged fragment

theorem fragment_step (horderly : j.IsOrderly) (h : j.place.IsMirrored)
    (hown : ∀ fragment, e ≠ .setFragment fragment)
    (hset : (j.step e).place.fragment ≠ j.place.fragment) :
    (j.step e).place.fragment = (j.step e).place.directory := by
  have hinside : ∀ fragment, e ≠ .hashChanged fragment := by
    rintro fragment rfl
    exact hset (j.fragment_step_hashChanged fragment)
  rcases published_step hown hinside with ⟨hsame, -⟩ | ⟨-, hremembered⟩
  · exact absurd hsame hset
  · exact ((isMirrored_step h horderly hown).published _ hremembered).2

theorem directory_step (horderly : j.IsOrderly) (h : j.place.IsMirrored)
    (hown : ∀ fragment, e ≠ .setFragment fragment) :
    (j.step e).place.directory = j.place.directory ∨
      (j.step e).place.directory = (j.step e).place.fragment := by
  cases hcommit : j.commit? e with
  | none => exact .inl (stands_step hcommit).directory
  | some f =>
      have hcommitted : (j.step e).place.committed ≠ 0 :=
        committed_ne_zero_step horderly e (.inr (by simp [hcommit]))
      exact .inr ((isMirrored_step h horderly hown).fragment hcommitted).symm

theorem caused_of_ne (hown : ∀ fragment, e ≠ .setFragment fragment) :
    j.caused e =
      if (j.step e).place.fragment = j.place.fragment then []
      else [(j.step e).place.fragment] := by
  cases e with
  | setFragment fragment => exact absurd rfl (hown fragment)
  | _ => rfl

@[simp] theorem caused_hashChanged (j : Journey) (fragment : String) :
    j.caused (.hashChanged fragment) = [] := if_pos (j.fragment_step_hashChanged fragment)

theorem ignores_step_iff (j : Journey) (fragment : String) :
    j.Ignores (j.step (.hashChanged fragment)) ↔
      j.place.published = some fragment ∨
        j.place.isQuiet ∧ Path.normalize fragment = j.place.directory := by
  rw [step, Navigation.hashChanged_eq]
  split
  · next hremembered => exact iff_of_true ⟨none, rfl⟩ (.inl hremembered)
  · next hforeign =>
      split
      · next hthere => exact iff_of_true ⟨j.place.published, rfl⟩ (.inr hthere)
      · next hthere =>
          apply iff_of_false
          · rintro ⟨published, heq⟩
            simpa [follow] using congrArg ahead heq
          · exact not_or.mpr ⟨hforeign, hthere⟩

end Journey

/-! ## Echoes on their way -/

namespace Echoing

variable {x : Echoing}

structure IsTuned (x : Echoing) : Prop where
  orderly : x.journey.IsOrderly
  mirrored : x.journey.place.IsMirrored
  last : ∀ echo, x.echoes.getLast? = some echo →
    echo = x.journey.place.fragment ∧ echo = x.journey.place.directory
  normal : ∀ echo ∈ x.echoes, Path.normalize echo = echo

theorem isTuned_opening (fragment : String) : (opening fragment).IsTuned where
  orderly := Journey.isOrderly_opening fragment
  mirrored := Navigation.isMirrored_opening fragment
  last := by simp [opening]
  normal := by simp [opening]

theorem isTuned_occur (h : x.IsTuned) {e : Event} (hown : ∀ fragment, e ≠ .setFragment fragment) :
    (x.occur e).IsTuned where
  orderly := Journey.isOrderly_step h.orderly e
  mirrored := Journey.isMirrored_step h.mirrored h.orderly hown
  last := by
    intro echo hlast
    simp only [occur, Journey.caused_of_ne hown] at hlast ⊢
    split at hlast
    · next hsame =>
        rw [List.append_nil] at hlast
        obtain ⟨hfragment, hdirectory⟩ := h.last echo hlast
        rw [hsame]
        refine ⟨hfragment, ?_⟩
        rcases Journey.directory_step h.orderly h.mirrored hown with hstays | hfollows
        · rw [hstays, hdirectory]
        · rw [hfollows, hsame, hfragment]
    · next hset =>
        obtain rfl : (x.journey.step e).place.fragment = echo := by simpa using hlast
        exact ⟨rfl, Journey.fragment_step h.orderly h.mirrored hown hset⟩
  normal := by
    intro echo hmem
    simp only [occur, Journey.caused_of_ne hown, List.mem_append] at hmem
    rcases hmem with hold | hnew
    · exact h.normal echo hold
    · split at hnew
      · simp at hnew
      · next hset =>
          obtain rfl := List.mem_singleton.mp hnew
          rw [Journey.fragment_step h.orderly h.mirrored hown hset]
          exact (Journey.isOrderly_step h.orderly e).directory_normal

theorem IsTuned.rest (h : x.IsTuned) {echo : String} {rest : List String}
    (hechoes : x.echoes = echo :: rest) : { x with echoes := rest }.IsTuned where
  orderly := h.orderly
  mirrored := h.mirrored
  last := by
    intro last hlast
    apply h.last
    rw [hechoes, List.getLast?_cons, hlast]
    rfl
  normal := fun other hmem => h.normal other (hechoes ▸ List.mem_cons_of_mem echo hmem)

theorem isTuned_step (h : x.IsTuned) {happening : Happening}
    (hown : ∀ fragment, happening ≠ .event (.setFragment fragment)) :
    (x.step happening).IsTuned := by
  cases happening with
  | event e => exact isTuned_occur h fun fragment heq => hown fragment (heq ▸ rfl)
  | echo =>
      cases hechoes : x.echoes with
      | nil => simpa only [step, hechoes] using h
      | cons echo rest =>
          simp only [step, hechoes]
          exact isTuned_occur (h.rest hechoes) (by simp)

theorem isTuned_run (h : x.IsTuned) {happenings : List Happening}
    (hown : ∀ fragment, .event (.setFragment fragment) ∉ happenings) :
    (x.run happenings).IsTuned := by
  induction happenings generalizing x with
  | nil => exact h
  | cons happening happenings ih =>
      simp only [List.mem_cons, not_or] at hown
      apply ih (isTuned_step h fun fragment heq => (hown fragment).1 heq.symm)
      exact fun fragment => (hown fragment).2

theorem step_echo {echo : String} {rest : List String} (hechoes : x.echoes = echo :: rest) :
    x.step .echo = ⟨x.journey.step (.hashChanged echo), rest⟩ := by
  simp [step, hechoes, occur]

theorem run_concat (x : Echoing) (happenings : List Happening) (happening : Happening) :
    x.run (happenings ++ [happening]) = (x.run happenings).step happening := by
  simp [run]

/-- A single echo on its way is remembered if it is the only one ever since the start, and nobody
else changes the address. -/
theorem published_of_prompt (fragment : String) {happenings : List Happening}
    (hown : ∀ other, .event (.setFragment other) ∉ happenings)
    (hinside : ∀ other, .event (.hashChanged other) ∉ happenings)
    (hprompt : ∀ before after, happenings = before ++ after →
      ((opening fragment).run before).echoes.length ≤ 1) :
    ∀ echo ∈ ((opening fragment).run happenings).echoes,
      ((opening fragment).run happenings).journey.place.published = some echo := by
  induction happenings using List.reverseRecOn with
  | nil => simp [run, opening]
  | append_singleton happenings happening ih =>
      simp only [List.mem_append, List.mem_singleton, not_or] at hown hinside
      have hbefore := ih (fun other => (hown other).1) (fun other => (hinside other).1)
        fun before after heq => hprompt before (after ++ [happening]) (by simp [heq])
      have hshort := hprompt (happenings ++ [happening]) [] (by simp)
      have hearlier := hprompt happenings [happening] rfl
      rw [run_concat] at hshort ⊢
      generalize (opening fragment).run happenings = x at *
      cases happening with
      | event e =>
          have hown' : ∀ other, e ≠ .setFragment other := fun other heq =>
            (hown other).2 (heq ▸ rfl)
          have hinside' : ∀ other, e ≠ .hashChanged other := fun other heq =>
            (hinside other).2 (heq ▸ rfl)
          intro echo hecho
          simp only [step, occur, Journey.caused_of_ne hown', List.mem_append] at hshort hecho ⊢
          rcases Journey.published_step (j := x.journey) hown' hinside' with
            ⟨hsame, hkept⟩ | ⟨hset, hremembered⟩
          · rw [hkept]
            rw [if_pos hsame] at hecho
            exact hbefore echo (by simpa using hecho)
          · rw [if_neg hset] at hshort hecho
            have hnone : x.echoes = [] := by simpa using hshort
            obtain rfl : echo = (x.journey.step e).place.fragment := by simpa [hnone] using hecho
            exact hremembered
      | echo =>
          cases hechoes : x.echoes with
          | nil => simpa only [step, hechoes] using hbefore
          | cons echo rest =>
              obtain rfl : rest = [] := by simpa [hechoes] using hearlier
              simp [step_echo hechoes]

/-- An echo is ignored if and only if it names the directory, and it is still remembered or no
listing is on its way.  Any other echo clears the message and asks for the place that it names; it
has been overtaken by a later one, unless it names the directory.  Echoes of which there is never
more than one on its way, with no hash change of anybody else, are all ignored. -/
theorem echo_is_ignored_iff (fragment : String) {happenings : List Happening}
    (hown : ∀ other, .event (.setFragment other) ∉ happenings) :
    let x := (opening fragment).run happenings
    let n := x.journey.place
    (∀ echo rest, x.echoes = echo :: rest →
      (x.journey.Ignores (x.step .echo).journey ↔
        echo = n.directory ∧ (n.published = some echo ∨ n.isQuiet)) ∧
      (¬ x.journey.Ignores (x.step .echo).journey →
        (x.step .echo).journey =
          ⟨{ n with
              issued := n.issued + 1
              status := .loading
              screen := { n.screen with message := .null } },
            x.journey.ahead ++ [⟨n.issued + 1, echo⟩]⟩) ∧
      (echo ≠ n.directory → rest ≠ [])) ∧
    ((∀ other, .event (.hashChanged other) ∉ happenings) →
      (∀ before after, happenings = before ++ after →
        ((opening fragment).run before).echoes.length ≤ 1) →
      x.journey.Ignores (x.step .echo).journey) := by
  intro x n
  have htuned : x.IsTuned := isTuned_run (isTuned_opening fragment) hown
  have hignores {echo : String} {rest : List String} (hechoes : x.echoes = echo :: rest) :
      x.journey.Ignores (x.step .echo).journey ↔
        n.published = some echo ∨ n.isQuiet ∧ echo = n.directory := by
    rw [step_echo hechoes, Journey.ignores_step_iff,
      htuned.normal echo (hechoes ▸ List.mem_cons_self)]
  refine ⟨fun echo rest hechoes => ⟨?_, fun hnot => ?_, fun hother hrest => ?_⟩,
    fun hinside hprompt => ?_⟩
  · rw [hignores hechoes]
    constructor
    · rintro (hremembered | ⟨hquiet, hthere⟩)
      · exact ⟨(htuned.mirrored.published echo hremembered).2, .inl hremembered⟩
      · exact ⟨hthere, .inr hquiet⟩
    · rintro ⟨hthere, hremembered | hquiet⟩
      · exact .inl hremembered
      · exact .inr ⟨hquiet, hthere⟩
  · rw [hignores hechoes] at hnot
    obtain ⟨hforeign, haway⟩ := not_or.mp hnot
    have hnormal := htuned.normal echo (hechoes ▸ List.mem_cons_self)
    rw [step_echo hechoes, Journey.step, Navigation.hashChanged_eq, hnormal, if_neg hforeign,
      if_neg haway]
    rfl
  · subst hrest
    exact hother (htuned.last echo (by simp [hechoes])).2
  · cases hechoes : x.echoes with
    | nil => exact ⟨n.published, by simp [step, hechoes, n]⟩
    | cons echo rest =>
        rw [hignores hechoes]
        apply Or.inl
        exact published_of_prompt fragment hown hinside hprompt echo
          (hechoes ▸ List.mem_cons_self)

def hurried : List Happening :=
  [.event (.navigate "/a" false), .event (.answer 1 (.ok (.object []))),
    .event (.navigate "/b" false), .event (.answer 2 (.ok (.object [])))]

theorem echo_is_ignored_iff_of_two_commits :
    let x := (opening "").run hurried
    (∀ other, .event (.setFragment other) ∉ hurried) ∧ x.echoes = ["/a", "/b"] ∧
      ¬ x.journey.Ignores (x.step .echo).journey ∧
      (x.step .echo).journey.ahead = [⟨3, "/a"⟩] := by
  intro x
  have hown : ∀ other, .event (.setFragment other) ∉ hurried := by simp [hurried]
  have hechoes : x.echoes = ["/a", "/b"] := by decide
  obtain ⟨hignored, hasks, -⟩ := (echo_is_ignored_iff "" hown).1 "/a" ["/b"] hechoes
  have hasked : ¬ x.journey.Ignores (x.step .echo).journey := by
    rw [hignored]
    decide
  refine ⟨hown, hechoes, hasked, ?_⟩
  rw [hasks hasked]
  decide

/-- An echo asks for a listing, although navigation itself caused it. -/
theorem overtaken_echo_asks :
    ¬ ∀ happenings : List Happening, (∀ other, .event (.setFragment other) ∉ happenings) →
      let x := (opening "").run happenings
      x.journey.Ignores (x.step .echo).journey := by
  intro h
  obtain ⟨published, heq⟩ := h hurried (by simp [hurried])
  have hahead : [⟨3, "/a"⟩] = ([] : List Fetch) := congrArg Journey.ahead heq
  simp at hahead

end Echoing

end HdfsBrowser
