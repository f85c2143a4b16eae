import HdfsBrowser.Json.Value
import HdfsBrowser.Number.Integer

/-!
# Values of JSON texts

What a text can say: integers that fit, numbers with a point that exist, and
objects with each key once.
-/

namespace HdfsBrowser.Value

inductive WellFormed : Value → Prop
  | null : WellFormed .null
  | bool (b : Bool) : WellFormed (.bool b)
  | int {n : Int} (h : Numeral.Fits n) : WellFormed (.int n)
  | float {x : Binary64} (h : x.IsRegular) : WellFormed (.float x)
  | str (s : String) : WellFormed (.str s)
  | list {items : List Value} (h : ∀ v ∈ items, WellFormed v) : WellFormed (.list items)
  | object {members : List (String × Value)} (hkeys : (members.map (·.1)).Nodup)
      (h : ∀ m ∈ members, WellFormed m.2) : WellFormed (.object members)

mutual

def decWellFormed : (v : Value) → Decidable v.WellFormed
  | .null => isTrue .null
  | .bool b => isTrue (.bool b)
  | .int n =>
    if h : Numeral.Fits n then isTrue (.int h) else isFalse fun | .int hfits => h hfits
  | .float x =>
    if h : x.IsRegular then isTrue (.float h) else isFalse fun | .float hregular => h hregular
  | .str s => isTrue (.str s)
  | .list items =>
    match decAllWellFormed items with
    | isTrue h => isTrue (.list h)
    | isFalse h => isFalse fun | .list hall => h hall
  | .object members =>
    if hkeys : (members.map (·.1)).Nodup then
      match decMembersWellFormed members with
      | isTrue h => isTrue (.object hkeys h)
      | isFalse h => isFalse fun | .object _ hall => h hall
    else isFalse fun | .object hnodup _ => hkeys hnodup

def decAllWellFormed : (items : List Value) → Decidable (∀ v ∈ items, v.WellFormed)
  | [] => isTrue nofun
  | v :: vs =>
    match decWellFormed v, decAllWellFormed vs with
    | isTrue h, isTrue hall => isTrue (List.forall_mem_cons.mpr ⟨h, hall⟩)
    | isFalse h, _ => isFalse fun hall => h (hall v List.mem_cons_self)
    | _, isFalse h => isFalse fun hall => h fun w hw => hall w (List.mem_cons_of_mem v hw)

def decMembersWellFormed :
    (members : List (String × Value)) → Decidable (∀ m ∈ members, m.2.WellFormed)
  | [] => isTrue nofun
  | (k, v) :: rest =>
    match decWellFormed v, decMembersWellFormed rest with
    | isTrue h, isTrue hall => isTrue (List.forall_mem_cons.mpr ⟨h, hall⟩)
    | isFalse h, _ => isFalse fun hall => h (hall (k, v) List.mem_cons_self)
    | _, isFalse h => isFalse fun hall => h fun m hm => hall m (List.mem_cons_of_mem _ hm)

end

instance (v : Value) : Decidable v.WellFormed := decWellFormed v

end HdfsBrowser.Value
