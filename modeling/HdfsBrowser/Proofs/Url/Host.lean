import HdfsBrowser.Proofs.Text.Splitting
import HdfsBrowser.Proofs.Url.Percent
import HdfsBrowser.Url.Host

/-!
# Hosts inside an authority

An authority ends at a slash, a question mark or a number sign.  Reading a
host that holds none of these gives a host that holds none.
-/

namespace HdfsBrowser.Host

def endsAuthority (c : Char) : Bool := c == '/' || c == '?' || c == '#'

def StaysInside (cs : List Char) : Prop := ∀ c ∈ cs, endsAuthority c = false

instance (cs : List Char) : Decidable (StaysInside cs) :=
  List.decidableBAll (fun c => endsAuthority c = false) cs

theorem staysInside_nil : StaysInside [] := by decide

theorem StaysInside.append {cs ds : List Char} (hcs : StaysInside cs) (hds : StaysInside ds) :
    StaysInside (cs ++ ds) := by
  intro c hc
  rcases List.mem_append.mp hc with h | h
  · exact hcs c h
  · exact hds c h

theorem StaysInside.of_subset {cs ds : List Char} (h : StaysInside cs) (hsub : ds ⊆ cs) :
    StaysInside ds := fun c hc => h c (hsub hc)

/-! ## Lower case and escapes -/

theorem endsAuthority_of_le {c : Char} (h : 0x40 ≤ c.toNat) : endsAuthority c = false := by
  have hne : ∀ d : Char, d.toNat < 0x40 → c ≠ d := by
    intro d hd heq
    rw [heq] at h
    omega
  simp [endsAuthority, hne '/' (by decide), hne '?' (by decide), hne '#' (by decide)]

theorem toLower_eq_or (c : Char) : c.toLower = c ∨ 0x40 ≤ c.toLower.toNat := by
  unfold Char.toLower
  split
  · next hupper =>
      have hlow : 0x41 ≤ c.toNat := hupper.1
      have hhigh : c.toNat ≤ 0x5A := hupper.2
      have hlower : (c.val + ('a'.val - 'A'.val)).toNat = c.toNat + 32 := by
        rw [UInt32.toNat_add]
        exact Nat.mod_eq_of_lt (show c.toNat + 32 < 2 ^ 32 by omega)
      exact .inr (show 0x40 ≤ (c.val + ('a'.val - 'A'.val)).toNat by omega)
  · exact .inl rfl

structure AvoidsMarks (p : Char → Bool) : Prop where
  slash : p '/' = false
  query : p '?' = false
  fragment : p '#' = false

theorem AvoidsMarks.endsAuthority {p : Char → Bool} (hp : AvoidsMarks p) {c : Char}
    (h : p c = true) : endsAuthority c = false := by
  have hne : ∀ d, p d = false → c ≠ d := by
    intro d hd heq
    rw [heq, hd] at h
    cases h
  simp [Host.endsAuthority, hne '/' hp.slash, hne '?' hp.query, hne '#' hp.fragment]

theorem staysInside_encode {safe : Char → Bool} (hsafe : AvoidsMarks safe) (cs : List Char) :
    StaysInside (Percent.encode safe cs) := by
  have hdigit : ∀ n < 16, endsAuthority (Percent.digit n) = false := by decide
  intro c hc
  rcases Percent.mem_encode hc with ⟨-, h⟩ | rfl | ⟨n, hn, rfl⟩
  · exact hsafe.endsAuthority h
  · decide
  · exact hdigit n hn

/-! ## All hosts -/

theorem staysInside_hostName (name : HostName) : StaysInside name.chars := by
  have hplain : AvoidsMarks isHostNameChar := ⟨by decide, by decide, by decide⟩
  exact fun c hc => hplain.endsAuthority (List.all_eq_true.mp name.plain c hc)

theorem staysInside_parse [Client] {given host : String} (h : StaysInside given.toList)
    (hparse : parse given = .ok host) : StaysInside host.toList := by
  unfold parse at hparse
  dsimp only at hparse
  split at hparse
  · cases hparse
    exact staysInside_nil
  · split at hparse
    · split at hparse
      · cases hparse
        exact h
      · cases hparse
    · split at hparse
      · split at hparse
        · cases hparse
          rw [String.toList_ofList]
          exact h.of_subset ((List.dropLast_sublist _).trans (List.drop_sublist 1 _)).subset
        · cases hparse
      · split at hparse
        · cases hparse
          rw [String.toList_ofList]
          exact staysInside_encode ⟨by decide, by decide, by decide⟩ _
        · split at hparse
          · next name hname =>
              cases hparse
              rw [String.toList_ofList]
              exact staysInside_hostName name
          · cases hparse

end HdfsBrowser.Host
