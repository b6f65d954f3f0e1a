import Baselines.Proofs.Text.Lines
import Baselines.Text.Encoding

/-!
# Encoded texts

A text is read back from its bytes in UTF-8, except for a byte order mark before it.
-/

namespace Baselines.Encoding

/-! ## 1. Bytes of one character -/

theorem toNat_byte {n : Nat} (h : n < 256) : (UInt8.ofNat n).toNat = n := by
  rw [UInt8.toNat_ofNat']
  omega

-- A character is no surrogate, and has a place in Unicode.
theorem toNat_char (c : Char) : c.toNat < 0xD800 ∨ (0xDFFF < c.toNat ∧ c.toNat < 0x110000) := c.valid

theorem follow?_one {n : Nat} (h : n < 0x80) : follow? (UInt8.ofNat n) = some ⟨0, 0, 0⟩ := by
  unfold follow?
  simp only [toNat_byte (show n < 256 by omega)]
  rw [if_pos h]

theorem follow?_two {n : Nat} (h : 0xC2 ≤ n) (h' : n < 0xE0) :
    follow? (UInt8.ofNat n) = some ⟨1, 0x80, 0xBF⟩ := by
  unfold follow?
  simp only [toNat_byte (show n < 256 by omega)]
  rw [if_neg (by omega), if_neg (by omega), if_pos h']

-- The second byte of three is neither of a shorter character nor of a surrogate.
theorem follow?_three {n m : Nat} (h : 0xE0 ≤ n) (h' : n < 0xF0) (hm : 0x80 ≤ m) (hm' : m ≤ 0xBF)
    (hlow : n = 0xE0 → 0xA0 ≤ m) (hhigh : n = 0xED → m ≤ 0x9F) :
    ∃ lo hi, follow? (UInt8.ofNat n) = some ⟨2, lo, hi⟩ ∧ lo ≤ m ∧ m ≤ hi := by
  unfold follow?
  simp only [toNat_byte (show n < 256 by omega)]
  rw [if_neg (by omega), if_neg (by omega), if_neg (by omega)]
  by_cases h0 : n = 0xE0
  · rw [if_pos h0]
    exact ⟨_, _, rfl, hlow h0, hm'⟩
  · rw [if_neg h0]
    by_cases hd : n = 0xED
    · rw [if_pos hd]
      exact ⟨_, _, rfl, hm, hhigh hd⟩
    · rw [if_neg hd, if_pos h']
      exact ⟨_, _, rfl, hm, hm'⟩

-- The second byte of four is neither of a shorter character nor of one beyond Unicode.
theorem follow?_four {n m : Nat} (h : 0xF0 ≤ n) (h' : n ≤ 0xF4) (hm : 0x80 ≤ m) (hm' : m ≤ 0xBF)
    (hlow : n = 0xF0 → 0x90 ≤ m) (hhigh : n = 0xF4 → m ≤ 0x8F) :
    ∃ lo hi, follow? (UInt8.ofNat n) = some ⟨3, lo, hi⟩ ∧ lo ≤ m ∧ m ≤ hi := by
  unfold follow?
  simp only [toNat_byte (show n < 256 by omega)]
  rw [if_neg (by omega), if_neg (by omega), if_neg (by omega), if_neg (by omega),
    if_neg (by omega), if_neg (by omega)]
  by_cases h0 : n = 0xF0
  · rw [if_pos h0]
    exact ⟨_, _, rfl, hlow h0, hm'⟩
  · rw [if_neg h0]
    by_cases h4 : n = 0xF4
    · rw [if_neg (by omega), if_pos h4]
      exact ⟨_, _, rfl, hm, hhigh h4⟩
    · rw [if_pos (by omega)]
      exact ⟨_, _, rfl, hm, hm'⟩

theorem admits_byte {k a b m : Nat} (ha : a ≤ m) (hb : m ≤ b) (hm : m < 256) :
    Follow.admits ⟨k, a, b⟩ (UInt8.ofNat m) = true := by
  unfold Follow.admits
  rw [toNat_byte hm]
  simp [ha, hb]

theorem continues_byte (n : Nat) : continues (UInt8.ofNat (0x80 + n % 64)) = true := by
  unfold continues
  rw [toNat_byte (by omega)]
  simp only [Bool.and_eq_true, decide_eq_true_eq]
  omega

/-! ## 2. Texts -/

-- The bytes of a character are read as that character, whatever follows.
theorem utf8Decode?_utf8Char (c : Char) (r : Bytes) :
    utf8Decode? (utf8Char c ++ r) = (utf8Decode? r).map (c :: ·) := by
  have hc := toNat_char c
  have hb : ∀ k, (UInt8.ofNat (0x80 + k % 64)).toNat = 0x80 + k % 64 := fun k =>
    toNat_byte (by omega)
  have key : ∀ m, m = c.toNat →
      (utf8Decode? r).map (Char.ofNat m :: ·) = (utf8Decode? r).map (c :: ·) := by
    intro m hm
    rw [hm, Char.ofNat_toNat]
  unfold utf8Char
  simp only
  -- one case for each number of bytes; in each the bits of the character are put together again
  by_cases h1 : c.toNat < 0x80
  · rw [if_pos h1, List.singleton_append, utf8Decode?, follow?_one h1]
    apply key
    exact toNat_byte (by omega)
  · rw [if_neg h1]
    by_cases h2 : c.toNat < 0x800
    · rw [if_pos h2, List.cons_append, List.singleton_append, utf8Decode?,
        follow?_two (by omega) (by omega)]
      simp only [admits_byte (k := 1) (a := 0x80) (b := 0xBF) (m := 0x80 + c.toNat % 64)
        (by omega) (by omega) (by omega), if_true]
      apply key
      rw [toNat_byte (by omega), hb]
      omega
    · rw [if_neg h2]
      by_cases h3 : c.toNat < 0x10000
      · obtain ⟨lo, hi, hf, hlo, hhi⟩ := follow?_three (n := 0xE0 + c.toNat / 4096)
          (m := 0x80 + c.toNat / 64 % 64) (by omega) (by omega) (by omega) (by omega)
          (by omega) (by omega)
        rw [if_pos h3, List.cons_append, List.cons_append, List.singleton_append, utf8Decode?, hf]
        simp only [admits_byte (k := 2) hlo hhi (by omega), continues_byte, Bool.and_self, if_true]
        apply key
        rw [toNat_byte (by omega), hb, hb]
        omega
      · obtain ⟨lo, hi, hf, hlo, hhi⟩ := follow?_four (n := 0xF0 + c.toNat / 262144)
          (m := 0x80 + c.toNat / 4096 % 64) (by omega) (by omega) (by omega) (by omega)
          (by omega) (by omega)
        rw [if_neg h3, List.cons_append, List.cons_append, List.cons_append,
          List.singleton_append, utf8Decode?, hf]
        simp only [admits_byte (k := 3) hlo hhi (by omega), continues_byte, Bool.and_self, if_true]
        apply key
        rw [toNat_byte (by omega), hb, hb, hb]
        omega

theorem utf8Encode_cons (c : Char) (t : Text) : utf8Encode (c :: t) = utf8Char c ++ utf8Encode t :=
  List.flatMap_cons

-- A text is read back from its bytes.
theorem utf8Decode?_utf8Encode (t : Text) : utf8Decode? (utf8Encode t) = some t := by
  induction t with
  | nil => rfl
  | cons c r ih => rw [utf8Encode_cons, utf8Decode?_utf8Char, ih, Option.map_some]

/-! ## 3. Files -/

theorem utf8Char_mark : utf8Char '\uFEFF' = [0xEF, 0xBB, 0xBF] := by decide

theorem utf8Char_head (c : Char) : ∃ n s, utf8Char c = UInt8.ofNat n :: s ∧ n < 0xF5 := by
  have hc := toNat_char c
  unfold utf8Char
  simp only
  split
  · exact ⟨_, _, rfl, by omega⟩
  · split
    · exact ⟨_, _, rfl, by omega⟩
    · split
      · exact ⟨_, _, rfl, by omega⟩
      · exact ⟨_, _, rfl, by omega⟩

theorem length_le_utf8Length (t : Text) : t.length ≤ utf8Length t := by
  induction t with
  | nil => exact Nat.zero_le _
  | cons c t ih =>
    obtain ⟨n, s, hc, -⟩ := utf8Char_head c
    rw [utf8Length] at ih ⊢
    rw [utf8Encode_cons, hc]
    simp only [List.length_cons, List.length_append]
    omega

-- Of all characters, only the byte order mark has its bytes.
theorem eq_mark_of_utf8Char {c : Char} {r s : Bytes}
    (h : utf8Char c ++ r = 0xEF :: 0xBB :: 0xBF :: s) : c = '\uFEFF' := by
  have hc := toNat_char c
  have hbyte : ∀ {a : Nat} {b : UInt8}, UInt8.ofNat a = b → a < 256 → a = b.toNat := by
    intro a b he ha
    rw [← he, toNat_byte ha]
  have hval : c.toNat = 0xFEFF := by
    unfold utf8Char at h
    simp only at h
    split at h
    · have h0 := hbyte (List.cons.inj h).1 (by omega)
      have : (0xEF : UInt8).toNat = 0xEF := rfl
      omega
    · have e0 : (0xEF : UInt8).toNat = 0xEF := rfl
      have e1 : (0xBB : UInt8).toNat = 0xBB := rfl
      have e2 : (0xBF : UInt8).toNat = 0xBF := rfl
      split at h
      · have h0 := hbyte (List.cons.inj h).1 (by omega)
        omega
      · split at h
        · obtain ⟨h0, h⟩ := List.cons.inj h
          obtain ⟨h1, h⟩ := List.cons.inj h
          obtain ⟨h2, -⟩ := List.cons.inj h
          have h0 := hbyte h0 (by omega)
          have h1 := hbyte h1 (by omega)
          have h2 := hbyte h2 (by omega)
          omega
        · have h0 := hbyte (List.cons.inj h).1 (by omega)
          omega
  rw [← Char.ofNat_toNat c, hval]

-- Only a byte order mark begins like one.
theorem named_utf8Char {c : Char} (h : c ≠ '\uFEFF') (r : Bytes) :
    named (utf8Char c ++ r) = (.utf8, utf8Char c ++ r) := by
  obtain ⟨n, k, hk, hn⟩ := utf8Char_head c
  have hhead : ∀ {b : UInt8} {s : Bytes}, utf8Char c ++ r = b :: s → b.toNat < 0xF5 := by
    intro b s hs
    rw [hk] at hs
    rw [← (List.cons.inj hs).1, toNat_byte (by omega)]
    exact hn
  unfold named
  split
  · rename_i s hs
    exact absurd (eq_mark_of_utf8Char hs) h
  · rename_i s hs
    exact absurd (hhead hs) (by decide)
  · rename_i s hs
    exact absurd (hhead hs) (by decide)
  · rfl

theorem read_of_named {b r : Bytes} {t : Text} (h : named b = (.utf8, r))
    (ht : utf8Decode? r = some t) : read b = .ok t := by
  have hdec : decode? .utf8 r = some t := ht
  simp only [read, h, hdec]

/-- A file is read as the text that was written, without a byte order mark before it. -/
theorem read_utf8Encode (t : Text) : read (utf8Encode t) = .ok (Text.dropMark t) := by
  cases t with
  | nil => rfl
  | cons c r =>
    by_cases h : c = '\uFEFF'
    · have hn : named (utf8Encode (c :: r)) = (.utf8, utf8Encode r) := by
        rw [h, utf8Encode_cons, utf8Char_mark]
        rfl
      rw [read_of_named hn (utf8Decode?_utf8Encode r), h]
      rfl
    · have hn : named (utf8Encode (c :: r)) = (.utf8, utf8Encode (c :: r)) := by
        rw [utf8Encode_cons, named_utf8Char h]
      rw [read_of_named hn (utf8Decode?_utf8Encode (c :: r)),
        Text.dropMark_of_not (by simp [Text.hasMark, h])]

end Baselines.Encoding
