import HdfsBrowser.Text.Utf8

/-!
# Reading of UTF-8

The reader gives back each character from its bytes, whatever follows them, so
a text is read back from its encoding.  Any bytes have at most one piece for
each byte, and no more pieces in front of a tail than there are bytes before it.
-/

namespace HdfsBrowser.Utf8

/-! ## Single characters -/

theorem toNat_byte {n : Nat} (h : n < 256) : (UInt8.ofNat n).toNat = n :=
  UInt8.toNat_ofNat_of_lt' h

def IsTail (b : UInt8) : Prop := 0x80 ≤ b.toNat ∧ b.toNat ≤ 0xBF

theorem readTail_cons {tail low high bits k : Nat} (hk : k < 64) (hlow : low ≤ 0x80 + k)
    (hhigh : 0x80 + k ≤ high) (bs : Bytes) :
    readTail (tail + 1) low high bits (UInt8.ofNat (0x80 + k) :: bs) =
      ((readTail tail 0x80 0xBF (bits * 64 + k) bs).1,
        (readTail tail 0x80 0xBF (bits * 64 + k) bs).2 + 1) := by
  have hbyte : (UInt8.ofNat (0x80 + k)).toNat = 0x80 + k := toNat_byte (by omega)
  simp only [readTail, hbyte, hlow, hhigh, and_self, ↓reduceIte, Nat.add_sub_cancel_left]

theorem lead?_one {n : Nat} (h : n < 0x80) :
    lead? (UInt8.ofNat n) = some ⟨0, 0x80, 0xBF, n⟩ := by
  simp only [lead?, toNat_byte (show n < 256 by omega), h, ↓reduceIte]

theorem lead?_two {n : Nat} (hlow : 2 ≤ n) (hhigh : n < 32) :
    lead? (UInt8.ofNat (0xC0 + n)) = some ⟨1, 0x80, 0xBF, n⟩ := by
  have h1 : ¬ 0xC0 + n < 0x80 := by omega
  have h2 : ¬ 0xC0 + n < 0xC2 := by omega
  have h3 : 0xC0 + n < 0xE0 := by omega
  simp only [lead?, toNat_byte (show 0xC0 + n < 256 by omega), h1, h2, h3, ↓reduceIte,
    Nat.add_sub_cancel_left]

/-- The second byte keeps out what two bytes can say, and the surrogates. -/
theorem lead?_three {n k : Nat} (hn : n < 16) (hk : k < 64) (hlong : n = 0 → 32 ≤ k)
    (hscalar : n = 13 → k < 32) :
    ∃ low high, lead? (UInt8.ofNat (0xE0 + n)) = some ⟨2, low, high, n⟩ ∧
      low ≤ 0x80 + k ∧ 0x80 + k ≤ high := by
  have hbyte : (UInt8.ofNat (0xE0 + n)).toNat = 0xE0 + n := toNat_byte (by omega)
  by_cases hzero : n = 0
  · subst hzero
    exact ⟨0xA0, 0xBF, rfl, by omega, by omega⟩
  · by_cases hsurrogate : n = 13
    · subst hsurrogate
      exact ⟨0x80, 0x9F, rfl, by omega, by omega⟩
    · refine ⟨0x80, 0xBF, ?_, by omega, by omega⟩
      have h1 : ¬ 0xE0 + n < 0x80 := by omega
      have h2 : ¬ 0xE0 + n < 0xC2 := by omega
      have h3 : ¬ 0xE0 + n < 0xE0 := by omega
      have h4 : ¬ 0xE0 + n = 0xE0 := by omega
      have h5 : ¬ 0xE0 + n = 0xED := by omega
      have h6 : 0xE0 + n < 0xF0 := by omega
      simp only [lead?, hbyte, h1, h2, h3, h4, h5, h6, ↓reduceIte, Nat.add_sub_cancel_left]

theorem lead?_four {n k : Nat} (hn : n < 5) (hk : k < 64) (hlong : n = 0 → 16 ≤ k)
    (hscalar : n = 4 → k < 16) :
    ∃ low high, lead? (UInt8.ofNat (0xF0 + n)) = some ⟨3, low, high, n⟩ ∧
      low ≤ 0x80 + k ∧ 0x80 + k ≤ high := by
  obtain rfl | rfl | rfl | rfl | rfl : n = 0 ∨ n = 1 ∨ n = 2 ∨ n = 3 ∨ n = 4 := by omega
  · exact ⟨0x90, 0xBF, rfl, by omega, by omega⟩
  · exact ⟨0x80, 0xBF, rfl, by omega, by omega⟩
  · exact ⟨0x80, 0xBF, rfl, by omega, by omega⟩
  · exact ⟨0x80, 0xBF, rfl, by omega, by omega⟩
  · exact ⟨0x80, 0x8F, rfl, by omega, by omega⟩

theorem toNat_scalar (c : Char) : c.toNat < 0xD800 ∨ 0xDFFF < c.toNat ∧ c.toNat < 0x110000 :=
  c.valid

theorem pieces_cons (b : UInt8) (bs : Bytes) :
    pieces (b :: bs) = (readChar b bs).1 :: pieces (bs.drop (readChar b bs).2) := by
  rw [pieces]

theorem pieces_encodeChar_append (c : Char) (bs : Bytes) :
    pieces (encodeChar c ++ bs) = some c :: pieces bs := by
  have hscalar := toNat_scalar c
  have hchar : Char.ofNat c.toNat = c := Char.ofNat_toNat c
  generalize hn : c.toNat = n at hscalar hchar
  by_cases h1 : n < 0x80
  · have hencode : encodeChar c = [UInt8.ofNat n] := by simp only [encodeChar, hn, h1, ↓reduceIte]
    rw [hencode, List.singleton_append, pieces_cons, readChar, lead?_one h1]
    simp only [readTail, Option.map_some, hchar, List.drop_zero]
  · by_cases h2 : n < 0x800
    · have hencode : encodeChar c =
          [UInt8.ofNat (0xC0 + n / 64), UInt8.ofNat (0x80 + n % 64)] := by
        simp only [encodeChar, hn, h1, h2, ↓reduceIte]
      have hvalue : n / 64 * 64 + n % 64 = n := by omega
      rw [hencode, List.cons_append, List.singleton_append, pieces_cons, readChar,
        lead?_two (by omega) (by omega)]
      dsimp only
      rw [readTail_cons (by omega) (by omega) (by omega)]
      simp only [readTail, Option.map_some, hvalue, hchar, List.drop_succ_cons, List.drop_zero,
        Nat.zero_add]
    · by_cases h3 : n < 0x10000
      · have hencode : encodeChar c = [UInt8.ofNat (0xE0 + n / 4096),
            UInt8.ofNat (0x80 + n / 64 % 64), UInt8.ofNat (0x80 + n % 64)] := by
          simp only [encodeChar, hn, h1, h2, h3, ↓reduceIte]
        have hvalue : (n / 4096 * 64 + n / 64 % 64) * 64 + n % 64 = n := by omega
        obtain ⟨low, high, hlead, hlow, hhigh⟩ := lead?_three (n := n / 4096)
          (k := n / 64 % 64) (by omega) (by omega) (by omega) (by omega)
        rw [hencode, List.cons_append, List.cons_append, List.singleton_append, pieces_cons,
          readChar, hlead]
        dsimp only
        rw [readTail_cons (by omega) hlow hhigh, readTail_cons (by omega) (by omega) (by omega)]
        simp only [readTail, Option.map_some, hvalue, hchar, List.drop_succ_cons, List.drop_zero,
          Nat.zero_add]
      · have hencode : encodeChar c = [UInt8.ofNat (0xF0 + n / 262144),
            UInt8.ofNat (0x80 + n / 4096 % 64), UInt8.ofNat (0x80 + n / 64 % 64),
            UInt8.ofNat (0x80 + n % 64)] := by
          simp only [encodeChar, hn, h1, h2, h3, ↓reduceIte]
        have hvalue : ((n / 262144 * 64 + n / 4096 % 64) * 64 + n / 64 % 64) * 64 + n % 64 = n := by
          omega
        obtain ⟨low, high, hlead, hlow, hhigh⟩ := lead?_four (n := n / 262144)
          (k := n / 4096 % 64) (by omega) (by omega) (by omega) (by omega)
        rw [hencode, List.cons_append, List.cons_append, List.cons_append, List.singleton_append,
          pieces_cons, readChar, hlead]
        dsimp only
        rw [readTail_cons (by omega) hlow hhigh, readTail_cons (by omega) (by omega) (by omega),
          readTail_cons (by omega) (by omega) (by omega)]
        simp only [readTail, Option.map_some, hvalue, hchar, List.drop_succ_cons, List.drop_zero,
          Nat.zero_add]

/-! ## Texts -/

@[simp] theorem pieces_nil : pieces [] = [] := by rw [pieces]

theorem pieces_flatMap_encodeChar (cs : List Char) (bs : Bytes) :
    pieces (cs.flatMap encodeChar ++ bs) = cs.map some ++ pieces bs := by
  induction cs with
  | nil => rfl
  | cons c cs ih =>
      rw [List.flatMap_cons, List.append_assoc, pieces_encodeChar_append, ih]
      rfl

@[simp] theorem decodeLossy_encode (s : String) : decodeLossy (encode s) = s := by
  have h := pieces_flatMap_encodeChar s.toList []
  rw [List.append_nil, pieces_nil, List.append_nil] at h
  simp [decodeLossy, encode, h, lossyChars, Function.comp_def]

theorem allChars?_map_some (cs : List Char) : allChars? (cs.map some) = some cs := by
  induction cs with
  | nil => rfl
  | cons c cs ih =>
      rw [allChars?] at ih ⊢
      simp [List.mapM_cons, ih]

@[simp] theorem decode?_encode (s : String) : decode? (encode s) = some s := by
  have h := pieces_flatMap_encodeChar s.toList []
  rw [List.append_nil, pieces_nil, List.append_nil] at h
  simp [decode?, encode, h, allChars?_map_some]

/-! ## Counting -/

theorem isTail_of_mem_take_readTail {tail low high bits : Nat} {bs : Bytes} (hlow : 0x80 ≤ low)
    (hhigh : high ≤ 0xBF) : ∀ b ∈ bs.take (readTail tail low high bits bs).2, IsTail b := by
  induction tail generalizing low high bits bs with
  | zero => simp [readTail]
  | succ tail ih =>
      cases bs with
      | nil => simp
      | cons first bs =>
          unfold readTail
          split
          · next hfirst =>
              intro b hb
              simp only [List.take_succ_cons, List.mem_cons] at hb
              rcases hb with rfl | hb
              · exact ⟨Nat.le_trans hlow hfirst.1, Nat.le_trans hfirst.2 hhigh⟩
              · exact ih (Nat.le_refl _) (Nat.le_refl _) b hb
          · simp

def BoundsTail (o : Option Lead) : Prop := ∀ l ∈ o, 0x80 ≤ l.low ∧ l.high ≤ 0xBF

theorem boundsTail_ite {p : Prop} [Decidable p] {x y : Option Lead} (hx : BoundsTail x)
    (hy : BoundsTail y) : BoundsTail (if p then x else y) := by
  split
  · exact hx
  · exact hy

theorem boundsTail_lead? (b : UInt8) : BoundsTail (lead? b) := by
  unfold lead?
  repeat' apply boundsTail_ite
  all_goals simp [BoundsTail]

theorem isTail_of_mem_take_readChar (b : UInt8) (bs : Bytes) :
    ∀ x ∈ bs.take (readChar b bs).2, IsTail x := by
  unfold readChar
  cases hlead : lead? b with
  | none => simp
  | some l =>
      obtain ⟨hlow, hhigh⟩ := boundsTail_lead? b l hlead
      exact isTail_of_mem_take_readTail hlow hhigh

theorem pieces_cons_of_isTail {b : UInt8} (h : IsTail b) (bs : Bytes) :
    pieces (b :: bs) = none :: pieces bs := by
  have hlead : lead? b = none := by
    obtain ⟨hlow, hhigh⟩ := h
    have h1 : ¬ b.toNat < 0x80 := by omega
    have h2 : b.toNat < 0xC2 := by omega
    simp only [lead?, h1, h2, ↓reduceIte]
  rw [pieces_cons, readChar, hlead]
  rfl

theorem length_pieces_drop_le {k : Nat} {bs : Bytes} (h : ∀ b ∈ bs.take k, IsTail b) :
    (pieces (bs.drop k)).length ≤ (pieces bs).length := by
  induction k generalizing bs with
  | zero => exact Nat.le_refl _
  | succ k ih =>
      cases bs with
      | nil => exact Nat.le_refl _
      | cons b bs =>
          rw [List.take_succ_cons] at h
          rw [List.drop_succ_cons, pieces_cons_of_isTail (h b List.mem_cons_self)]
          have htail := ih fun x hx => h x (List.mem_cons_of_mem b hx)
          exact Nat.le_succ_of_le htail

theorem length_pieces_cons_le (b : UInt8) (bs : Bytes) :
    (pieces (b :: bs)).length ≤ (pieces bs).length + 1 := by
  rw [pieces_cons, List.length_cons]
  exact Nat.succ_le_succ (length_pieces_drop_le (isTail_of_mem_take_readChar b bs))

end HdfsBrowser.Utf8
