import Baselines.Proofs.Text.Encoding

/-!
# Files that are read

The bytes that are read as a text are those that encode it: in UTF-8 or in UTF-16 behind a byte order
mark, or in UTF-8 without one. All others are refused, in the encoding that their start names.
-/

namespace Baselines.Encoding

/-! ## 1. Bytes of one character -/

theorem toNat_ofNat {n : Nat} (h : n < 0xD800 ∨ (0xDFFF < n ∧ n < 0x110000)) :
    (Char.ofNat n).toNat = n := by
  rw [Char.ofNat, dif_pos h]
  rfl

theorem byte_eq {n : Nat} {b : UInt8} (h : n = b.toNat) : UInt8.ofNat n = b := by
  rw [h, UInt8.ofNat_toNat]

theorem continues_iff {b : UInt8} : continues b = true ↔ 0x80 ≤ b.toNat ∧ b.toNat ≤ 0xBF := by
  unfold continues
  rw [Bool.and_eq_true, decide_eq_true_eq, decide_eq_true_eq]
  omega

theorem admits_iff {f : Follow} {b : UInt8} :
    f.admits b = true ↔ f.least ≤ b.toNat ∧ b.toNat ≤ f.most := by
  simp [Follow.admits]

/-- What a first byte says of the second: no shorter character, no surrogate, and nothing beyond
Unicode can begin with the two. -/
theorem follow?_eq_some {b : UInt8} {f : Follow} (h : follow? b = some f) :
    (b.toNat < 0x80 ∧ f.count = 0) ∨
      (0xC2 ≤ b.toNat ∧ b.toNat < 0xE0 ∧ f.count = 1 ∧ 0x80 ≤ f.least ∧ f.most ≤ 0xBF) ∨
      (0xE0 ≤ b.toNat ∧ b.toNat < 0xF0 ∧ f.count = 2 ∧ 0x80 ≤ f.least ∧ f.most ≤ 0xBF ∧
        (b.toNat = 0xE0 → 0xA0 ≤ f.least) ∧ (b.toNat = 0xED → f.most ≤ 0x9F)) ∨
      (0xF0 ≤ b.toNat ∧ b.toNat ≤ 0xF4 ∧ f.count = 3 ∧ 0x80 ≤ f.least ∧ f.most ≤ 0xBF ∧
        (b.toNat = 0xF0 → 0x90 ≤ f.least) ∧ (b.toNat = 0xF4 → f.most ≤ 0x8F)) := by
  unfold follow? at h
  simp only at h
  split_ifs at h <;> obtain rfl := Option.some.inj h <;> simp <;> omega

theorem utf8Char_one {b : UInt8} (h : b.toNat < 0x80) : utf8Char (Char.ofNat b.toNat) = [b] := by
  unfold utf8Char
  simp only [toNat_ofNat (n := b.toNat) (by omega)]
  rw [if_pos h, UInt8.ofNat_toNat]

theorem utf8Char_two {b b1 : UInt8} (hb : 0xC2 ≤ b.toNat) (hb' : b.toNat < 0xE0)
    (h1 : 0x80 ≤ b1.toNat) (h1' : b1.toNat ≤ 0xBF) :
    utf8Char (Char.ofNat ((b.toNat - 0xC0) * 64 + (b1.toNat - 0x80))) = [b, b1] := by
  unfold utf8Char
  simp only [toNat_ofNat (n := (b.toNat - 0xC0) * 64 + (b1.toNat - 0x80)) (by omega)]
  rw [if_neg (by omega), if_pos (by omega), byte_eq (b := b) (by omega),
    byte_eq (b := b1) (by omega)]

theorem utf8Char_three {b b1 b2 : UInt8} (hb : 0xE0 ≤ b.toNat) (hb' : b.toNat < 0xF0)
    (h1 : 0x80 ≤ b1.toNat) (h1' : b1.toNat ≤ 0xBF) (hlow : b.toNat = 0xE0 → 0xA0 ≤ b1.toNat)
    (hhigh : b.toNat = 0xED → b1.toNat ≤ 0x9F) (h2 : 0x80 ≤ b2.toNat) (h2' : b2.toNat ≤ 0xBF) :
    utf8Char (Char.ofNat ((b.toNat - 0xE0) * 4096 + (b1.toNat - 0x80) * 64 + (b2.toNat - 0x80))) =
      [b, b1, b2] := by
  unfold utf8Char
  simp only [toNat_ofNat
    (n := (b.toNat - 0xE0) * 4096 + (b1.toNat - 0x80) * 64 + (b2.toNat - 0x80)) (by omega)]
  rw [if_neg (by omega), if_neg (by omega), if_pos (by omega), byte_eq (b := b) (by omega),
    byte_eq (b := b1) (by omega), byte_eq (b := b2) (by omega)]

theorem utf8Char_four {b b1 b2 b3 : UInt8} (hb : 0xF0 ≤ b.toNat) (hb' : b.toNat ≤ 0xF4)
    (h1 : 0x80 ≤ b1.toNat) (h1' : b1.toNat ≤ 0xBF) (hlow : b.toNat = 0xF0 → 0x90 ≤ b1.toNat)
    (hhigh : b.toNat = 0xF4 → b1.toNat ≤ 0x8F) (h2 : 0x80 ≤ b2.toNat) (h2' : b2.toNat ≤ 0xBF)
    (h3 : 0x80 ≤ b3.toNat) (h3' : b3.toNat ≤ 0xBF) :
    utf8Char (Char.ofNat ((b.toNat - 0xF0) * 262144 + (b1.toNat - 0x80) * 4096 +
      (b2.toNat - 0x80) * 64 + (b3.toNat - 0x80))) = [b, b1, b2, b3] := by
  unfold utf8Char
  simp only [toNat_ofNat (n := (b.toNat - 0xF0) * 262144 + (b1.toNat - 0x80) * 4096 +
      (b2.toNat - 0x80) * 64 + (b3.toNat - 0x80)) (by omega)]
  rw [if_neg (by omega), if_neg (by omega), if_neg (by omega), byte_eq (b := b) (by omega),
    byte_eq (b := b1) (by omega), byte_eq (b := b2) (by omega), byte_eq (b := b3) (by omega)]

/-! ## 2. UTF-8 -/

-- One more character in front of what was read.
theorem eq_utf8Encode_cons {r s : Bytes} {c : Char} {t : Text} (hc : utf8Char c = s)
    (ih : ∀ {t}, utf8Decode? r = some t → r = utf8Encode t)
    (h : (utf8Decode? r).map (c :: ·) = some t) : s ++ r = utf8Encode t := by
  obtain ⟨t, ht, rfl⟩ := Option.map_eq_some_iff.1 h
  rw [utf8Encode_cons, hc, ← ih ht]

theorem eq_utf8Encode_of_utf8Decode? {b : Bytes} {t : Text} (h : utf8Decode? b = some t) :
    b = utf8Encode t := by
  -- in each case the number of bytes that follow tells which of the ranges the first one is in
  fun_induction utf8Decode? b generalizing t with
  | case1 =>
    obtain rfl := Option.some.inj h
    rfl
  | case2 b r hf => exact absurd h (by simp)
  | case3 b r lo hi hf ih =>
    have hb := follow?_eq_some hf
    simp only at hb
    exact eq_utf8Encode_cons (utf8Char_one (by omega)) ih h
  | case4 b lo hi hf b1 r hadmits ih =>
    have hb := follow?_eq_some hf
    have hb1 := admits_iff.1 hadmits
    simp only at hb hb1
    exact eq_utf8Encode_cons
      (utf8Char_two (by omega) (by omega) (by omega) (by omega)) ih h
  | case5 b lo hi hf b1 r hadmits => exact absurd h (by simp)
  | case6 b lo hi hf => exact absurd h (by simp)
  | case7 b lo hi hf b1 b2 r hadmits ih =>
    rw [Bool.and_eq_true] at hadmits
    have hb := follow?_eq_some hf
    have hb1 := admits_iff.1 hadmits.1
    have hb2 := continues_iff.1 hadmits.2
    simp only at hb hb1
    exact eq_utf8Encode_cons
      (utf8Char_three (by omega) (by omega) (by omega) (by omega) (by omega) (by omega) hb2.1
        hb2.2)
      ih h
  | case8 b lo hi hf b1 b2 r hadmits => exact absurd h (by simp)
  | case9 b r lo hi hf hr => exact absurd h (by simp)
  | case10 b k lo hi h0 h1 h2 hf b1 b2 b3 r hadmits ih =>
    rw [Bool.and_eq_true, Bool.and_eq_true] at hadmits
    have hk : k ≠ 0 ∧ k ≠ 1 ∧ k ≠ 2 := ⟨h0, h1, h2⟩
    have hb := follow?_eq_some hf
    have hb1 := admits_iff.1 hadmits.1.1
    have hb2 := continues_iff.1 hadmits.1.2
    have hb3 := continues_iff.1 hadmits.2
    simp only at hb hb1
    exact eq_utf8Encode_cons
      (utf8Char_four (by omega) (by omega) (by omega) (by omega) (by omega) (by omega) hb2.1 hb2.2
        hb3.1 hb3.2) ih h
  | case11 b k lo hi h0 h1 h2 hf b1 b2 b3 r hadmits => exact absurd h (by simp)
  | case12 b r k lo hi h0 h1 h2 hf hr => exact absurd h (by simp)

/-! ## 3. UTF-16 -/

section Units

variable {e : Encoding} {us : List Nat} {t : Text}

theorem units_lt {c : Char} {n : Nat} (h : n ∈ units c) : n < 0x10000 := by
  have hc := toNat_char c
  unfold units at h
  simp only at h
  split at h
  · rw [List.mem_singleton] at h
    omega
  · rcases List.mem_pair.1 h with h | h
    · omega
    · omega

theorem units?_unitBytes {n : Nat} (h : n < 0x10000) (r : Bytes) :
    units? e (unitBytes e n ++ r) = (units? e r).map (n :: ·) := by
  have hhigh : (UInt8.ofNat (n / 256)).toNat = n / 256 := toNat_byte (by omega)
  have hlow : (UInt8.ofNat (n % 256)).toNat = n % 256 := toNat_byte (by omega)
  have hn : n / 256 * 256 + n % 256 = n := by omega
  unfold unitBytes
  simp only
  by_cases he : e = utf16le
  · rw [if_pos he, List.cons_append, List.singleton_append, units?, if_pos he, hhigh, hlow, hn]
  · rw [if_neg he, List.cons_append, List.singleton_append, units?, if_neg he, hhigh, hlow, hn]

theorem unitBytes_eq (a b : UInt8) : unitBytes e
    (if e = utf16le then b.toNat * 256 + a.toNat else a.toNat * 256 + b.toNat) = [a, b] := by
  have ha := a.toNat_lt
  have hb := b.toNat_lt
  unfold unitBytes
  by_cases he : e = utf16le
  · simp only [if_pos he]
    rw [byte_eq (b := a) (by omega), byte_eq (b := b) (by omega)]
  · simp only [if_neg he]
    rw [byte_eq (b := a) (by omega), byte_eq (b := b) (by omega)]

/-- Bytes are read as units exactly when they are the bytes of units. -/
theorem units?_eq_some {b : Bytes} : units? e b = some us ↔
    b = us.flatMap (unitBytes e) ∧ ∀ n ∈ us, n < 0x10000 := by
  constructor
  · intro h
    fun_induction units? e b generalizing us with
    | case1 =>
      obtain rfl := Option.some.inj h
      exact ⟨rfl, by simp⟩
    | case2 a => exact absurd h (by simp)
    | case3 a b r n =>
      rename_i ih
      obtain ⟨us, hus, rfl⟩ := Option.map_eq_some_iff.1 h
      obtain ⟨hr, hlt⟩ := ih hus
      have hn : (if e = utf16le then b.toNat * 256 + a.toNat else a.toNat * 256 + b.toNat) <
          0x10000 := by
        have ha := a.toNat_lt
        have hb := b.toNat_lt
        split <;> omega
      refine ⟨?_, List.forall_mem_cons.2 ⟨hn, hlt⟩⟩
      rw [List.flatMap_cons, ← hr, unitBytes_eq]
      rfl
  · rintro ⟨rfl, hlt⟩
    induction us with
    | nil => rfl
    | cons n r ih =>
      obtain ⟨hn, hr⟩ := List.forall_mem_cons.1 hlt
      rw [List.flatMap_cons, units?_unitBytes hn, ih hr]
      rfl

theorem ofUnits?_plain {n : Nat} (h : n < 0xD800 ∨ 0xE000 ≤ n) (r : List Nat) :
    ofUnits? (n :: r) = (ofUnits? r).map (Char.ofNat n :: ·) := by
  have hplain : (decide (n < 0xD800) || decide (0xE000 ≤ n)) = true := by simpa using h
  rw [ofUnits?.eq_def]
  simp only [hplain, if_true]

theorem ofUnits?_pair {n m : Nat} (hn : 0xD800 ≤ n) (hn' : n < 0xDC00) (hm : 0xDC00 ≤ m)
    (hm' : m < 0xE000) (r : List Nat) : ofUnits? (n :: m :: r) =
      (ofUnits? r).map (Char.ofNat (0x10000 + (n - 0xD800) * 1024 + (m - 0xDC00)) :: ·) := by
  have hplain : ¬(decide (n < 0xD800) || decide (0xE000 ≤ n)) = true := by
    simp only [Bool.or_eq_true, decide_eq_true_eq]
    omega
  have hlow : (decide (0xDC00 ≤ m) && decide (m < 0xE000)) = true := by simp [hm, hm']
  rw [ofUnits?, if_neg hplain, if_pos hn', if_pos hlow]

theorem units_plain {n : Nat} (h : n < 0xD800 ∨ 0xE000 ≤ n) (hn : n < 0x10000) :
    units (Char.ofNat n) = [n] := by
  unfold units
  simp only [toNat_ofNat (n := n) (by omega)]
  rw [if_pos hn]

theorem units_pair {n m : Nat} (hn : 0xD800 ≤ n) (hn' : n < 0xDC00) (hm : 0xDC00 ≤ m)
    (hm' : m < 0xE000) :
    units (Char.ofNat (0x10000 + (n - 0xD800) * 1024 + (m - 0xDC00))) = [n, m] := by
  have hhigh : 0xD800 + (0x10000 + (n - 0xD800) * 1024 + (m - 0xDC00) - 0x10000) / 1024 = n := by
    omega
  have hlow : 0xDC00 + (0x10000 + (n - 0xD800) * 1024 + (m - 0xDC00) - 0x10000) % 1024 = m := by
    omega
  unfold units
  simp only [toNat_ofNat (n := 0x10000 + (n - 0xD800) * 1024 + (m - 0xDC00)) (by omega)]
  rw [if_neg (by omega), hhigh, hlow]

theorem ofUnits?_units (c : Char) (r : List Nat) :
    ofUnits? (units c ++ r) = (ofUnits? r).map (c :: ·) := by
  have hc := toNat_char c
  unfold units
  simp only
  by_cases hn : c.toNat < 0x10000
  · rw [if_pos hn, List.singleton_append, ofUnits?_plain (by omega), Char.ofNat_toNat]
  · have hsame : 0x10000 + (0xD800 + (c.toNat - 0x10000) / 1024 - 0xD800) * 1024 +
        (0xDC00 + (c.toNat - 0x10000) % 1024 - 0xDC00) = c.toNat := by omega
    rw [if_neg hn, List.cons_append, List.singleton_append,
      ofUnits?_pair (by omega) (by omega) (by omega) (by omega), hsame, Char.ofNat_toNat]

/-- Units are read as a text exactly when they are the units of the text. -/
theorem ofUnits?_eq_some (hus : ∀ n ∈ us, n < 0x10000) :
    ofUnits? us = some t ↔ us = t.flatMap units := by
  constructor
  · intro h
    fun_induction ofUnits? us generalizing t with
    | case1 =>
      obtain rfl := Option.some.inj h
      rfl
    | case2 n r hn ih =>
      obtain ⟨t, ht, rfl⟩ := Option.map_eq_some_iff.1 h
      obtain ⟨hlt, hr⟩ := List.forall_mem_cons.1 hus
      rw [List.flatMap_cons, units_plain (by simpa using hn) hlt, ← ih hr ht]
      rfl
    | case3 n hn hn' m r hm ih =>
      obtain ⟨t, ht, rfl⟩ := Option.map_eq_some_iff.1 h
      obtain ⟨-, hr⟩ := List.forall_mem_cons.1 hus
      simp only [Bool.or_eq_true, decide_eq_true_eq, not_or, not_lt, not_le] at hn
      rw [Bool.and_eq_true, decide_eq_true_eq, decide_eq_true_eq] at hm
      rw [List.flatMap_cons, units_pair hn.1 hn' hm.1 hm.2, ← ih (List.forall_mem_cons.1 hr).2 ht]
      rfl
    | case4 n hn hn' m r hm => exact absurd h (by simp)
    | case5 n hn hn' => exact absurd h (by simp)
    | case6 n r hn hn' => exact absurd h (by simp)
  · rintro rfl
    clear hus
    induction t with
    | nil => rfl
    | cons c r ih =>
      rw [List.flatMap_cons, ofUnits?_units, ih]
      rfl

end Units

/-! ## 4. Files -/

/-- The bytes of a text in an encoding, without a mark. -/
def encode : Encoding → Text → Bytes
  | utf8, t => utf8Encode t
  | e, t => utf16Encode e t

/-- Bytes hold a text in an encoding exactly when they are its bytes. -/
theorem decode?_eq_some {e : Encoding} {b : Bytes} {t : Text} :
    decode? e b = some t ↔ b = encode e t := by
  have hwide : ∀ e : Encoding, (units? e b).bind ofUnits? = some t ↔ b = utf16Encode e t := by
    intro e
    rw [Option.bind_eq_some_iff]
    constructor
    · rintro ⟨us, hus, ht⟩
      obtain ⟨rfl, hlt⟩ := units?_eq_some.1 hus
      rw [utf16Encode, (ofUnits?_eq_some hlt).1 ht]
    · rintro rfl
      have hlt : ∀ n ∈ t.flatMap units, n < 0x10000 := by
        intro n hn
        obtain ⟨c, -, hn⟩ := List.mem_flatMap.1 hn
        exact units_lt hn
      exact ⟨_, units?_eq_some.2 ⟨rfl, hlt⟩, (ofUnits?_eq_some hlt).2 rfl⟩
  cases e with
  | utf8 =>
    refine ⟨eq_utf8Encode_of_utf8Decode?, ?_⟩
    rintro rfl
    exact utf8Decode?_utf8Encode t
  | utf16le => exact hwide utf16le
  | utf16be => exact hwide utf16be

/-- The forms in which a file holds a text: behind the mark of an encoding, or without one in UTF-8,
where the text itself does not begin with the mark. -/
inductive Holds : Bytes → Text → Prop where
  | marked (e : Encoding) (t : Text) : Holds (e.mark ++ e.encode t) t
  | plain {t : Text} (h : Text.hasMark t = false) : Holds (utf8Encode t) t

/-- The encoding whose mark the bytes begin with, or UTF-8 when they begin with none. -/
def Names (b : Bytes) (e : Encoding) : Prop :=
  e.mark <+: b ∨ (e = utf8 ∧ ∀ e' : Encoding, ¬ e'.mark <+: b)

theorem named_mark (e : Encoding) (r : Bytes) : named (e.mark ++ r) = (e, r) := by
  cases e <;> rfl

-- A mark is taken off, and where there is none nothing is.
theorem named_cases (b : Bytes) :
    (∃ (e : Encoding) (r : Bytes), b = e.mark ++ r) ∨
      (named b = (utf8, b) ∧ ∀ e : Encoding, ¬ e.mark <+: b) := by
  by_cases h : ∃ e : Encoding, e.mark <+: b
  · obtain ⟨e, r, hr⟩ := h
    exact Or.inl ⟨e, r, hr.symm⟩
  · rw [not_exists] at h
    refine Or.inr ⟨?_, h⟩
    unfold named
    split
    · rename_i r
      exact absurd (List.prefix_append utf8.mark r) (h utf8)
    · rename_i r
      exact absurd (List.prefix_append utf16le.mark r) (h utf16le)
    · rename_i r
      exact absurd (List.prefix_append utf16be.mark r) (h utf16be)
    · rfl

theorem named_fst_iff {b : Bytes} {e : Encoding} : (named b).1 = e ↔ Names b e := by
  unfold Names
  rcases named_cases b with ⟨k, r, rfl⟩ | ⟨hn, hnone⟩
  · rw [named_mark]
    constructor
    · rintro rfl
      exact Or.inl (List.prefix_append _ r)
    · rintro (⟨s, hs⟩ | ⟨-, hnone⟩)
      · rw [← named_mark k r, ← hs, named_mark]
      · exact absurd (List.prefix_append _ r) (hnone k)
  · rw [hn]
    constructor
    · rintro rfl
      exact Or.inr ⟨rfl, hnone⟩
    · rintro (he | ⟨rfl, -⟩)
      · exact absurd he (hnone e)
      · rfl

theorem read_ok_iff {b : Bytes} {t : Text} : read b = .ok t ↔ Holds b t := by
  constructor
  · intro h
    unfold read at h
    rcases named_cases b with ⟨e, r, rfl⟩ | ⟨hn, hnone⟩
    · rw [named_mark] at h
      cases hd : decode? e r with
      | none => simp [hd] at h
      | some s =>
        simp only [hd, Except.ok.injEq] at h
        rw [decode?_eq_some.1 hd, h]
        exact .marked e t
    · rw [hn] at h
      cases hd : decode? utf8 b with
      | none => simp [hd] at h
      | some s =>
        simp only [hd, Except.ok.injEq] at h
        obtain rfl := h
        obtain rfl : b = utf8Encode s := decode?_eq_some.1 hd
        -- a text that begins with the mark would have begun the file with it
        refine .plain (Bool.eq_false_iff.2 fun hm => hnone utf8 ?_)
        rw [Text.eq_mark_cons hm, utf8Encode_cons, utf8Char_mark]
        exact List.prefix_append _ _
  · rintro (⟨e, t⟩ | hm)
    · have hd : decode? e (encode e t) = some t := decode?_eq_some.2 rfl
      simp only [read, named_mark, hd]
    · rw [read_utf8Encode, Text.dropMark_of_not hm]

/-- A file is read as a text exactly when it holds the text, in one of the forms that there are. Every
other file is refused, as one that is not in the encoding that its start names. -/
theorem read_iff (b : Bytes) :
    (∀ t, read b = .ok t ↔ Holds b t) ∧
      ∀ e, read b = .error e ↔ (∀ t, ¬ Holds b t) ∧ Names b e := by
  refine ⟨fun t => read_ok_iff, fun e => ?_⟩
  simp only [← read_ok_iff, ← named_fst_iff]
  cases hr : read b with
  | ok t => simp
  | error k =>
    have hk : (named b).1 = k := by
      unfold read at hr
      simp only at hr
      split at hr
      · exact absurd hr (by simp)
      · exact Except.error.inj hr
    simp [hk]

-- A character written with a byte too many, a surrogate in UTF-8, one without its partner in UTF-16,
-- and half a unit.
example : read [0xC0, 0x80] = .error utf8 ∧ read [0xEF, 0xBB, 0xBF, 0xED, 0xA0, 0x80] = .error utf8 ∧
    read [0xFF, 0xFE, 0x00, 0xD8, 0x61, 0x00] = .error utf16le ∧
    read [0xFE, 0xFF, 0x00, 0x61, 0x00] = .error utf16be := by
  decide

end Baselines.Encoding
