import HdfsBrowser.Proofs.Path.Child
import HdfsBrowser.Proofs.Text.Splitting
import Mathlib.Data.List.Infix

/-!
# Trails

A trail leads from the root through the names of a path, each one in the
directory before it, to the path with every run of slashes made one.  It depends
on the names alone, so the trail of a crumb is the part of the trail that leads
to it.
-/

namespace HdfsBrowser

namespace Path

/-! ## Names between slashes -/

def pieces (cs : List Char) : List (List Char) := (cs.splitOn '/').filter (!·.isEmpty)

def names (path : String) : List String := (pieces path.toList).map String.ofList

/-- Every run of slashes made one. -/
def collapse : List Char → List Char
  | [] => []
  | c :: cs => if c = '/' ∧ cs.head? = some '/' then collapse cs else c :: collapse cs

@[simp] theorem pieces_nil : pieces [] = [] := rfl

@[simp] theorem pieces_cons_slash (cs : List Char) : pieces ('/' :: cs) = pieces cs := by
  simp [pieces, List.splitOn_cons_eq_if_modifyHead]

theorem pieces_append_slash (before after : List Char) :
    pieces (before ++ '/' :: after) = pieces before ++ pieces after := by
  rw [pieces, List.splitOn_append_cons_self, List.filter_append]
  rfl

theorem pieces_of_no_slash {cs : List Char} (h : '/' ∉ cs) (hne : cs ≠ []) : pieces cs = [cs] := by
  rw [pieces, List.splitOn_eq_singleton h]
  simpa using hne

theorem pieces_trimEndBy (cs : List Char) : pieces (Text.trimEndBy (· == '/') cs) = pieces cs := by
  rw [trimEndBy_eq_rdropWhile]
  induction cs using List.reverseRec with
  | nil => rfl
  | append_singleton cs c ih =>
      by_cases hc : c = '/'
      · subst hc
        rw [List.rdropWhile_concat_pos (· == '/') cs '/' (beq_self_eq_true '/'), ih,
          pieces_append_slash, pieces_nil, List.append_nil]
      · rw [List.rdropWhile_concat_neg _ _ _ (by simpa using hc)]

theorem pieces_normalChars (cs : List Char) : pieces (normalChars cs) = pieces cs := by
  have hrooted : pieces (rooted cs) = pieces cs := by
    unfold rooted
    split
    · rfl
    · exact pieces_cons_slash cs
  have htrimmed := pieces_trimEndBy (rooted cs)
  unfold normalChars
  split
  · next hnil =>
      rw [← hrooted, ← htrimmed, hnil]
      rfl
  · rw [htrimmed, hrooted]

theorem segments_eq_names (path : String) : segments path = names path := by
  rw [segments, Text.splitOnChar_eq_splitOn]
  exact congrArg (List.map String.ofList) (pieces_normalChars path.toList)

theorem isName_of_mem_names {path name : String} (h : name ∈ names path) : IsName name := by
  obtain ⟨piece, hpiece, rfl⟩ := List.mem_map.mp h
  obtain ⟨hsplit, hne⟩ := List.mem_filter.mp hpiece
  constructor
  · rintro hempty
    obtain rfl : piece = [] := by simpa using congrArg String.toList hempty
    cases hne
  · rw [String.toList_ofList]
    exact Text.not_mem_of_mem_splitOn hsplit

/-! ## Paths of names -/

def spine (ns : List String) : List Char := ns.flatMap fun n => '/' :: n.toList

def ofNames (ns : List String) : String :=
  if ns.isEmpty then root else String.ofList (spine ns)

theorem ofNames_concat_eq (ns : List String) (n : String) :
    (ofNames (ns ++ [n])).toList = spine ns ++ '/' :: n.toList := by
  simp [ofNames, spine]

theorem stem_ofNames {ns : List String} (h : ∀ n ∈ ns, IsName n) :
    stem (ofNames ns).toList = spine ns := by
  induction ns using List.reverseRec with
  | nil => rfl
  | append_singleton ns n ih =>
      obtain ⟨before, last, hlast, hslash⟩ := (h n (by simp)).exists_last
      have hlast : (spine ns ++ '/' :: n.toList).getLast? = some last := by
        rw [hlast, ← List.cons_append, ← List.append_assoc, List.getLast?_concat]
      rw [ofNames_concat_eq, stem, if_neg (by simpa [hlast] using hslash)]
      simp [spine]

theorem ofNames_concat {ns : List String} (h : ∀ n ∈ ns, IsName n) (n : String) :
    ofNames (ns ++ [n]) = child (ofNames ns) n := by
  rw [← String.toList_inj, ofNames_concat_eq, child, String.toList_ofList, stem_ofNames h]

theorem normalize_ofNames {ns : List String} (h : ∀ n ∈ ns, IsName n) :
    normalize (ofNames ns) = ofNames ns := by
  induction ns using List.reverseRec with
  | nil => exact normalize_root
  | append_singleton ns n ih =>
      have hns : ∀ m ∈ ns, IsName m := fun m hm => h m (List.mem_append_left _ hm)
      have hnormal := normalize_child (h n (by simp)) (ofNames ns)
      rwa [ih hns, ← ofNames_concat hns] at hnormal

theorem pieces_spine {ns : List String} (h : ∀ n ∈ ns, IsName n) :
    pieces (spine ns) = ns.map String.toList := by
  induction ns using List.reverseRec with
  | nil => rfl
  | append_singleton ns n ih =>
      have hname := h n (by simp)
      have hne : n.toList ≠ [] := fun hnil => hname.ne_empty (String.toList_eq_nil_iff.mp hnil)
      have hspine : spine (ns ++ [n]) = spine ns ++ '/' :: n.toList := by simp [spine]
      rw [hspine, pieces_append_slash, ih fun m hm => h m (List.mem_append_left _ hm),
        pieces_of_no_slash hname.no_slash hne, List.map_append]
      rfl

theorem names_ofNames {ns : List String} (h : ∀ n ∈ ns, IsName n) : names (ofNames ns) = ns := by
  cases ns with
  | nil => rfl
  | cons n ns =>
      rw [names, ofNames, if_neg (by simp), String.toList_ofList, pieces_spine h, List.map_map]
      simp [Function.comp_def]

/-! ## Runs of slashes -/

theorem collapse_ne_nil {cs : List Char} (h : cs ≠ []) : collapse cs ≠ [] := by
  induction cs with
  | nil => exact absurd rfl h
  | cons c cs ih =>
      rw [collapse]
      split
      · next hrun =>
          apply ih
          rintro rfl
          simp at hrun
      · exact List.cons_ne_nil _ _

theorem collapse_append {cs : List Char} (h : '/' ∉ cs) (rest : List Char) :
    collapse (cs ++ rest) = cs ++ collapse rest := by
  induction cs with
  | nil => rfl
  | cons c cs ih =>
      have hc : c ≠ '/' := fun heq => h (heq ▸ List.mem_cons_self)
      rw [List.cons_append, collapse, if_neg fun hboth => hc hboth.1,
        ih fun hmem => h (List.mem_cons_of_mem c hmem)]
      rfl

theorem collapse_slash_append {cs : List Char} (h : '/' ∉ cs) (hne : cs ≠ []) (rest : List Char) :
    collapse ('/' :: (cs ++ rest)) = '/' :: cs ++ collapse rest := by
  cases cs with
  | nil => exact absurd rfl hne
  | cons c cs =>
      have hc : c ≠ '/' := fun heq => h (heq ▸ List.mem_cons_self)
      rw [collapse, if_neg (by simpa using hc), collapse_append h]
      rfl

theorem collapse_slash (cs : List Char) :
    collapse ('/' :: cs) = (pieces cs).flatMap ('/' :: ·) ++
      if ('/' :: cs).getLast? = some '/' then ['/'] else [] := by
  induction hlength : cs.length using Nat.strong_induction_on generalizing cs with
  | _ k ih =>
  have hpiece : '/' ∉ cs.takeWhile (· != '/') := fun hmem => by
    simpa using List.mem_takeWhile_imp hmem
  cases hrest : cs.dropWhile (· != '/') with
  | nil =>
      have hwhole : cs.takeWhile (· != '/') = cs := by
        have hparts := List.takeWhile_append_dropWhile (p := (· != '/')) (l := cs)
        rwa [hrest, List.append_nil] at hparts
      rw [hwhole] at hpiece
      by_cases hne : cs = []
      · subst hne
        rfl
      · have hlast : ('/' :: cs).getLast? ≠ some '/' := by
          rw [List.getLast?_cons_of_ne_nil hne]
          exact fun heq => hpiece (List.mem_of_getLast? heq)
        have hcollapse := collapse_slash_append hpiece hne []
        rw [List.append_nil] at hcollapse
        rw [hcollapse, pieces_of_no_slash hpiece hne, if_neg hlast]
        simp [collapse]
  | cons c rest =>
      have hparts := List.takeWhile_append_dropWhile (p := (· != '/')) (l := cs)
      obtain rfl : c = '/' := by
        have hfirst := List.head?_dropWhile_not (· != '/') cs
        simpa [hrest] using hfirst
      rw [hrest] at hparts
      have hshorter : rest.length < k := by
        rw [← hlength, ← hparts]
        simp
        omega
      have hlast : ('/' :: cs).getLast? = ('/' :: rest).getLast? := by
        rw [← hparts, ← List.cons_append, List.getLast?_append_of_ne_nil _ (List.cons_ne_nil _ _)]
      rw [hlast, ← hparts, pieces_append_slash, List.flatMap_append, List.append_assoc,
        ← ih rest.length hshorter rest rfl]
      by_cases hne : cs.takeWhile (· != '/') = []
      · rw [hne, List.nil_append, collapse]
        simp
      · rw [collapse_slash_append hpiece hne, pieces_of_no_slash hpiece hne]
        simp

theorem collapse_normalChars (cs : List Char) :
    collapse (normalChars cs) = (ofNames (names (String.ofList cs))).toList := by
  have hnames : names (String.ofList cs) = (pieces (normalChars cs)).map String.ofList := by
    rw [names, String.toList_ofList, pieces_normalChars]
  rw [hnames]
  rcases normalChars_cases cs with hroot | ⟨rest, last, hnormal, hlast, hne⟩
  · rw [hroot]
    rfl
  · have hopen : ('/' :: rest).getLast? ≠ some '/' := by
      rw [List.getLast?_cons, hlast]
      simpa using hne
    have hcollapse := collapse_slash rest
    rw [if_neg hopen, List.append_nil] at hcollapse
    rw [hnormal, hcollapse, pieces_cons_slash]
    cases hpieces : pieces rest with
    | nil =>
        rw [hpieces] at hcollapse
        exact absurd hcollapse (collapse_ne_nil (List.cons_ne_nil '/' rest))
    | cons piece more => simp [ofNames, spine, List.flatMap_map]

/-! ## Crumbs -/

def crumb (ns : List String) : Crumb := ⟨ns.getLast?.getD root, ofNames ns⟩

theorem crumbsBelow_names (above : String) (ns : List String) :
    (crumbsBelow above ns).map (·.name) = ns := by
  induction ns generalizing above with
  | nil => rfl
  | cons n ns ih => rw [crumbsBelow, List.map_cons, ih]

theorem crumb_concat (ns : List String) (n : String) :
    crumb (ns ++ [n]) = ⟨n, ofNames (ns ++ [n])⟩ := by
  simp [crumb]

theorem inits_eq_cons (ns : List String) : ns.inits = [] :: ns.inits.tail := by
  cases ns <;> rfl

theorem crumbsBelow_eq_map (before ns : List String) :
    crumbsBelow (String.ofList (spine before)) ns =
      ns.inits.tail.map fun part => crumb (before ++ part) := by
  induction ns generalizing before with
  | nil => rfl
  | cons n ns ih =>
      have habove : String.ofList (spine before) ++ "/" ++ n =
          String.ofList (spine (before ++ [n])) := by
        simp [← String.toList_inj, spine]
      rw [crumbsBelow, habove, ih, List.inits_cons, List.tail_cons, inits_eq_cons ns]
      simp [crumb_concat, ofNames, Function.comp_def]

theorem trail_eq_map (directory : String) :
    trail directory = (names directory).inits.map crumb := by
  have hbelow := crumbsBelow_eq_map [] (names directory)
  rw [trail, segments_eq_names, inits_eq_cons, List.map_cons]
  exact congrArg (crumb [] :: ·) hbelow

theorem length_trail (directory : String) :
    (trail directory).length = (names directory).length + 1 := by
  rw [trail_eq_map, List.length_map, List.length_inits]

theorem isName_of_mem_take {directory name : String} {i : Nat}
    (h : name ∈ (names directory).take i) : IsName name :=
  isName_of_mem_names (List.mem_of_mem_take h)

theorem trail_getElem? {directory : String} {i : Nat} {c : Crumb}
    (h : (trail directory)[i]? = some c) :
    i ≤ (names directory).length ∧ c = crumb ((names directory).take i) := by
  obtain ⟨hlength, hc⟩ := List.getElem?_eq_some_iff.mp h
  rw [length_trail] at hlength
  simp only [trail_eq_map, List.getElem_map, List.getElem_inits] at hc
  exact ⟨by omega, hc.symm⟩

theorem trail_crumb {directory : String} {i : Nat} {c : Crumb}
    (h : (trail directory)[i]? = some c) : trail c.path = (trail directory).take (i + 1) := by
  obtain ⟨-, rfl⟩ := trail_getElem? h
  have hnames : names (crumb ((names directory).take i)).path = (names directory).take i :=
    names_ofNames fun _ => isName_of_mem_take
  rw [trail_eq_map, hnames, List.take_inits, trail_eq_map, List.map_take]

theorem isChain_trail (directory : String) :
    (trail directory).IsChain fun above below => below.path = child above.path below.name := by
  rw [List.isChain_iff_getElem]
  intro i hi
  obtain ⟨-, habove⟩ := trail_getElem? (List.getElem?_eq_getElem (Nat.lt_of_succ_lt hi))
  obtain ⟨hlength, hbelow⟩ := trail_getElem? (List.getElem?_eq_getElem hi)
  have htake := List.take_concat_get' (names directory) i hlength
  rw [habove, hbelow, ← htake, crumb_concat]
  exact ofNames_concat (fun _ => isName_of_mem_take) (names directory)[i]

theorem normalize_of_mem_trail {directory : String} {c : Crumb} (h : c ∈ trail directory) :
    normalize c.path = c.path := by
  obtain ⟨i, hi⟩ := List.mem_iff_getElem?.mp h
  obtain ⟨-, rfl⟩ := trail_getElem? hi
  exact normalize_ofNames fun _ => isName_of_mem_take

theorem getLast?_trail (directory : String) :
    (trail directory).getLast? = some (crumb (names directory)) := by
  have hlength := length_trail directory
  have hlast := List.getElem?_eq_getElem (l := trail directory)
    (i := (names directory).length) (by omega)
  obtain ⟨-, hcrumb⟩ := trail_getElem? hlast
  rw [List.getLast?_eq_getElem?, hlength, Nat.add_sub_cancel, hlast, hcrumb, List.take_length]

/-- A trail begins at the root and has a crumb for each name of the directory, in the directory
of the crumb before it.  Its paths are normal, the last one is that of the directory with every
run of slashes made one, and the trail of each crumb is the part that leads to it. -/
theorem trail_follows_names (directory : String) :
    (trail directory).head? = some ⟨root, root⟩ ∧
    (trail directory).tail.map (·.name) = names directory ∧
    (trail directory).IsChain (fun above below => below.path = child above.path below.name) ∧
    (∀ c ∈ trail directory, normalize c.path = c.path) ∧
    (trail directory).getLast?.map (·.path) =
      some (String.ofList (collapse (normalize directory).toList)) ∧
    ∀ i c, (trail directory)[i]? = some c → trail c.path = (trail directory).take (i + 1) := by
  refine ⟨rfl, ?_, isChain_trail directory, fun c => normalize_of_mem_trail, ?_,
    fun i c => trail_crumb⟩
  · rw [trail, List.tail_cons, crumbsBelow_names, segments_eq_names]
  · rw [getLast?_trail, normalize, String.toList_ofList, collapse_normalChars]
    simp [crumb]

theorem trail_of_crumb_between_runs :
    (trail "//a//b/")[1]? = some ⟨"a", "/a"⟩ ∧ trail "/a" = (trail "//a//b/").take 2 := by
  have hcrumb : (trail "//a//b/")[1]? = some ⟨"a", "/a"⟩ := by decide +kernel
  obtain ⟨-, -, -, -, -, hpart⟩ := trail_follows_names "//a//b/"
  have htrail := hpart 1 _ hcrumb
  exact ⟨hcrumb, htrail⟩

end Path

end HdfsBrowser
