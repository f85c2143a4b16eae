import HdfsBrowser.Page
import HdfsBrowser.Proofs.Computation
import HdfsBrowser.Proofs.Number.Integer
import HdfsBrowser.Proofs.Permission.Symbolic

/-!
# Characters of what is shown

Numbers, amounts, times and permissions are written in printable ASCII.  A
permission has ten characters.
-/

namespace HdfsBrowser

/-! ## Plain texts -/

namespace Text

def isPlain (c : Char) : Bool := 32 ≤ c.toNat && c.toNat < 127

def AllPlain (cs : List Char) : Prop := ∀ c ∈ cs, isPlain c = true

instance (cs : List Char) : Decidable (AllPlain cs) :=
  List.decidableBAll (isPlain · = true) cs

theorem isPlain_of_isDigit {c : Char} (h : c.isDigit = true) : isPlain c = true := by
  obtain ⟨hlow, hhigh⟩ := bounds_of_isDigit h
  simp only [isPlain, Bool.and_eq_true, decide_eq_true_eq]
  omega

variable {cs ds : List Char}

@[simp] theorem allPlain_append : AllPlain (cs ++ ds) ↔ AllPlain cs ∧ AllPlain ds :=
  List.forall_mem_append

@[simp] theorem allPlain_cons {c : Char} :
    AllPlain (c :: cs) ↔ isPlain c = true ∧ AllPlain cs :=
  List.forall_mem_cons

@[simp] theorem allPlain_nil : AllPlain [] := List.forall_mem_nil _

theorem allPlain_replicate (n : Nat) {c : Char} (h : isPlain c = true) :
    AllPlain (List.replicate n c) := fun _ hd => List.eq_of_mem_replicate hd ▸ h

end Text

open Text

/-! ## Numbers -/

namespace Numeral

theorem allPlain_digits (n : Nat) : AllPlain (digits n) := fun _ hc =>
  isPlain_of_isDigit (isDigit_of_mem_digits hc)

theorem allPlain_text (n : Int) : AllPlain (text n).toList := by
  rw [text, String.toList_ofList]
  cases n with
  | ofNat n => exact allPlain_digits n
  | negSucc n => exact allPlain_cons.mpr ⟨by decide, allPlain_digits _⟩

theorem allPlain_padded (width : Nat) (n : Int) : AllPlain (padded width n).toList := by
  rw [padded, String.toList_ofList, allPlain_append, allPlain_append]
  refine ⟨⟨?_, allPlain_replicate _ (by decide)⟩, allPlain_digits _⟩
  split <;> decide

theorem allPlain_write {n : Int} {t : String} (h : write n = .ok t) : AllPlain t.toList := by
  unfold write at h
  split at h
  · cases h
    exact allPlain_text n
  · cases h

end Numeral

theorem Decimal.allPlain_oneDecimal (n d : Nat) : AllPlain (oneDecimal n d).toList := by
  have hpoint : isPlain '.' = true := by decide
  simp [oneDecimal, Numeral.allPlain_digits, hpoint]

namespace Amount

theorem allPlain_inUnits {names : List String} (hnames : ∀ name ∈ names, AllPlain name.toList)
    (n d : Nat) : AllPlain (inUnits n d names).toList := by
  induction names generalizing d with
  | nil => exact allPlain_nil
  | cons name rest ih =>
      have hname : AllPlain (Decimal.oneDecimal n (d * 1024) ++ " " ++ name).toList := by
        have hblank : AllPlain " ".toList := by decide
        simp only [String.toList_append, allPlain_append]
        exact ⟨⟨Decimal.allPlain_oneDecimal n _, hblank⟩, hnames name List.mem_cons_self⟩
      cases rest with
      | nil => exact hname
      | cons next rest =>
          rw [inUnits]
          · split
            · exact hname
            · exact ih (fun name hmem => hnames name (List.mem_cons_of_mem _ hmem)) _
          · nofun

theorem allPlain_text {bytes : Int} {t : String} (h : text bytes = .ok t) : AllPlain t.toList := by
  unfold text at h
  split at h
  · dsimp only at h
    split at h
    · cases h
      have hunit : AllPlain " B".toList := by decide
      rw [String.toList_append, allPlain_append]
      exact ⟨Numeral.allPlain_text _, hunit⟩
    · cases h
      exact allPlain_inUnits (by decide) _ _
  · cases h

end Amount

namespace Timestamp

theorem allPlain_ofSeconds {seconds : Int} {t : String} (h : ofSeconds seconds = .ok t) :
    AllPlain t.toList := by
  have hmarks : AllPlain "-".toList ∧ AllPlain " ".toList ∧ AllPlain ":".toList := by decide
  unfold ofSeconds at h
  dsimp only at h
  split at h
  · cases h
  · split at h
    · cases h
    · rw [← Except.ok.inj h]
      simp only [String.toList_append, allPlain_append, twoDigits, Numeral.allPlain_text,
        Numeral.allPlain_padded, hmarks, and_self]

theorem allPlain_text {milliseconds : Int} {t : String} (h : text milliseconds = .ok t) :
    AllPlain t.toList := by
  unfold text at h
  split at h
  · cases h
    decide
  · split at h
    · cases h
    · split at h
      · cases h
      · exact allPlain_ofSeconds h

end Timestamp

/-! ## Permissions -/

namespace Permission

theorem decode_eq_ok {given : Value} {isDirectory : Bool} {s : String}
    (h : decode given isDirectory = .ok s) : ∃ bits, s = symbolic bits isDirectory := by
  unfold decode at h
  obtain ⟨bits, -, hs⟩ := bind_eq_ok_iff.mp h
  split at hs
  · cases hs
    exact ⟨bits, rfl⟩
  · cases hs

theorem length_of_decode {given : Value} {isDirectory : Bool} {s : String}
    (h : decode given isDirectory = .ok s) : s.length = 10 := by
  obtain ⟨bits, rfl⟩ := decode_eq_ok h
  rw [symbolic_eq, ← String.length_toList, String.toList_ofList]
  rfl

theorem allPlain_decode {given : Value} {isDirectory : Bool} {s : String}
    (h : decode given isDirectory = .ok s) : AllPlain s.toList := by
  obtain ⟨bits, rfl⟩ := decode_eq_ok h
  have hkind : ∀ b, isPlain (kindChar b) = true := by decide
  have hread : AllPlain ['r', '-'] := by decide
  have hwrite : AllPlain ['w', '-'] := by decide
  have hexecute : AllPlain ['x', '-'] := by decide
  have hlast : AllPlain ['x', '-', 't', 'T'] := by decide
  rw [symbolic_eq, String.toList_ofList]
  simp [Flags.chars, hkind, hread _ (mark_mem _ _), hwrite _ (mark_mem _ _),
    hexecute _ (mark_mem _ _), hlast _ (lastChar_mem _ _)]

end Permission

end HdfsBrowser
