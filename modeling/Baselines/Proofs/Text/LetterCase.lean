import Baselines.Text.Blank
import Baselines.Text.LetterCase
import Mathlib.Logic.Basic

/-!
# Small letters

A text in lower case stays as it is when it is put in lower case again, and a word stays a word.
Beyond ASCII both are read off the table of capitals: where a run of capitals is moved to, no run
of capitals lies, and every character may stand in a word.
-/

namespace Baselines.Text

/-! ## 1. Word characters -/

-- The blanks beyond ASCII, as ranges.
def blankRanges : List (Nat × Nat) :=
  [(0x85, 0x85), (0xA0, 0xA0), (0x1680, 0x1680), (0x2000, 0x200A), (0x2028, 0x2029),
    (0x202F, 0x202F), (0x205F, 0x205F), (0x3000, 0x3000)]

-- The word characters of the table lie beyond ASCII, are characters, and none is blank.
theorem wordRanges_sound : wordRanges.all fun w =>
    Nat.ble 0x80 w.1 && (Nat.blt w.2 0xD800 || Nat.ble 0xE000 w.1 && Nat.blt w.2 0x110000) &&
      blankRanges.all fun b => Nat.blt w.2 b.1 || Nat.blt b.2 w.1 := by
  decide +kernel

section WordRange

variable {w : Nat × Nat} {n : Nat}

theorem isValidChar_of_wordRange (hw : w ∈ wordRanges) (h1 : w.1 ≤ n) (h2 : n ≤ w.2) :
    0x80 ≤ n ∧ n.isValidChar := by
  have h := List.all_eq_true.1 wordRanges_sound w hw
  simp only [Bool.and_eq_true, Bool.or_eq_true, Nat.ble_eq, Nat.blt_eq] at h
  refine ⟨by omega, ?_⟩
  rcases h.1.2 with h | h
  · exact Or.inl (by omega)
  · exact Or.inr (by omega)

theorem not_blank_of_wordRange (hw : w ∈ wordRanges) (h1 : w.1 ≤ n) (h2 : n ≤ w.2)
    {b : Nat × Nat} (hb : b ∈ blankRanges) : n < b.1 ∨ b.2 < n := by
  have h := List.all_eq_true.1 wordRanges_sound w hw
  simp only [Bool.and_eq_true] at h
  have hc := List.all_eq_true.1 h.2 b hb
  simp only [Bool.or_eq_true, Nat.blt_eq] at hc
  omega

end WordRange

theorem isBlank_of_ge {c : Char} (hc : 0x80 ≤ c.toNat) (h : isBlank c = true) :
    ∃ b ∈ blankRanges, b.1 ≤ c.toNat ∧ c.toNat ≤ b.2 := by
  simp only [isBlank, Bool.or_eq_true, Bool.and_eq_true, decide_eq_true_eq, beq_iff_eq] at h
  simp only [blankRanges, List.mem_cons, List.not_mem_nil, or_false, exists_eq_or_imp,
    exists_eq_left]
  omega

theorem isAlphanum_iff {c : Char} : c.isAlphanum = true ↔
    ((65 ≤ c.toNat ∧ c.toNat ≤ 90) ∨ (97 ≤ c.toNat ∧ c.toNat ≤ 122)) ∨
      (48 ≤ c.toNat ∧ c.toNat ≤ 57) := by
  show ((decide (65 ≤ c.toNat ∧ c.toNat ≤ 90) || (decide (97 ≤ c.toNat) && decide (c.toNat ≤ 122))) ||
    (decide (48 ≤ c.toNat) && decide (c.toNat ≤ 57))) = true ↔ _
  simp only [Bool.or_eq_true, Bool.and_eq_true, decide_eq_true_eq]

/-- A word holds no blank. -/
theorem isBlank_of_isWordChar {c : Char} (h : isWordChar c = true) : isBlank c = false := by
  rw [Bool.eq_false_iff]
  intro hb
  by_cases hc : 0x80 ≤ c.toNat
  · obtain ⟨b, hbm, h1, h2⟩ := isBlank_of_ge hc hb
    simp only [isWordChar, Bool.or_eq_true, Bool.and_eq_true, beq_iff_eq] at h
    rcases h with (h | rfl) | ⟨-, h⟩
    · have := isAlphanum_iff.1 h
      omega
    · exact absurd hc (by decide)
    · obtain ⟨w, hw, hin⟩ := List.any_eq_true.1 h
      simp only [Bool.and_eq_true, decide_eq_true_eq] at hin
      rcases not_blank_of_wordRange hw hin.1 hin.2 hbm with h | h
      · omega
      · omega
  · simp only [isWordChar, Bool.or_eq_true, Bool.and_eq_true, beq_iff_eq, decide_eq_true_eq,
      hc, false_and, or_false] at h
    simp only [isBlank, Bool.or_eq_true, Bool.and_eq_true, decide_eq_true_eq, beq_iff_eq] at hb
    rcases h with h | rfl
    · have := isAlphanum_iff.1 h
      omega
    · exact absurd hb (by decide)

/-! ## 2. Runs of capitals -/

namespace CapitalRun

/-- The number of the first small letter of a run. -/
def low (r : CapitalRun) : Nat := (r.first + r.shift).toNat

/-- The number of the last small letter of a run. -/
def high (r : CapitalRun) : Nat := (r.last + r.shift).toNat

-- Whether the small letters of `r` lie outside of `s`, or between the capitals of `s`.
def clears (r s : CapitalRun) : Bool :=
  Nat.blt r.high s.first || Nat.blt s.last r.low ||
    (s.step == 2 && (r.step == 2 || r.first == r.last) && (r.low + s.first) % 2 == 1)

-- Whether the small letters of a run stand in one range of word characters.
def inWords (r : CapitalRun) : Bool :=
  wordRanges.any fun w => Nat.ble w.1 r.low && Nat.ble r.high w.2

theorem holds_iff {r : CapitalRun} {n : Nat} :
    r.holds n = true ↔ r.first ≤ n ∧ n ≤ r.last ∧ (n - r.first) % r.step = 0 := by
  simp only [holds, Bool.and_eq_true, decide_eq_true_eq, beq_iff_eq, and_assoc]

end CapitalRun

-- Nothing is a capital that a capital is moved to.
theorem capitalRuns_clear : capitalRuns.all fun r => capitalRuns.all r.clears := by
  decide +kernel

-- Only the sign for kelvins has its small letter in ASCII.
theorem capitalRuns_inWords : capitalRuns.all fun r =>
    r.inWords || (r.first == r.last && r.low == 'k'.toNat) := by
  decide +kernel

-- The dotted capital is in no run, and nothing is moved to it.
theorem capitalRuns_dotted : capitalRuns.all fun r => Nat.blt r.high 'İ'.toNat ||
    Nat.blt 'İ'.toNat r.low := by
  decide +kernel

section Lowered

variable {r : CapitalRun} {n : Nat}

theorem CapitalRun.low_le_high (h : r.holds n = true) : r.low ≤ r.high := by
  obtain ⟨h1, h2, -⟩ := CapitalRun.holds_iff.1 h
  unfold CapitalRun.low CapitalRun.high
  omega

theorem low_cases (hr : r ∈ capitalRuns) : (r.first = r.last ∧ r.low = 'k'.toNat) ∨
    ∃ w ∈ wordRanges, w.1 ≤ r.low ∧ r.high ≤ w.2 := by
  have h := List.all_eq_true.1 capitalRuns_inWords r hr
  simp only [Bool.or_eq_true, Bool.and_eq_true, beq_iff_eq] at h
  rcases h with h | h
  · obtain ⟨w, hw, hin⟩ := List.any_eq_true.1 h
    simp only [Bool.and_eq_true, Nat.ble_eq] at hin
    exact Or.inr ⟨w, hw, hin⟩
  · exact Or.inl h

-- Where a run moves a capital to.
theorem toNat_shift (hr : r ∈ capitalRuns) (h : r.holds n = true) :
    (n + r.shift).toNat = r.low + (n - r.first) ∧ (n + r.shift).toNat ≤ r.high := by
  have hlow : 0 < r.low := by
    rcases low_cases hr with ⟨-, hk⟩ | ⟨w, hw, h1, h2⟩
    · rw [hk]
      decide
    · have := (isValidChar_of_wordRange hw h1 (Nat.le_trans (CapitalRun.low_le_high h) h2)).1
      omega
  obtain ⟨h1, h2, -⟩ := CapitalRun.holds_iff.1 h
  unfold CapitalRun.low CapitalRun.high at *
  omega

-- What a capital is moved to may stand in a word, and no run holds it.
theorem shift_cases (hr : r ∈ capitalRuns) (h : r.holds n = true) :
    ((n + r.shift).toNat = 'k'.toNat ∨
      ∃ w ∈ wordRanges, w.1 ≤ (n + r.shift).toNat ∧ (n + r.shift).toNat ≤ w.2) ∧
      (n + r.shift).toNat ≠ 'İ'.toNat ∧
      ∀ s ∈ capitalRuns, s.holds (n + r.shift).toNat = false := by
  obtain ⟨hm, hhigh⟩ := toNat_shift hr h
  obtain ⟨h1, h2, h3⟩ := CapitalRun.holds_iff.1 h
  generalize (n + r.shift).toNat = m at hm hhigh ⊢
  refine ⟨?_, ?_, fun s hs => ?_⟩
  · rcases low_cases hr with ⟨he, hk⟩ | ⟨w, hw, hwl, hwh⟩
    · exact Or.inl (by omega)
    · exact Or.inr ⟨w, hw, by omega, by omega⟩
  · have hd := List.all_eq_true.1 capitalRuns_dotted r hr
    simp only [Bool.or_eq_true, Nat.blt_eq] at hd
    omega
  · have hc := List.all_eq_true.1 (List.all_eq_true.1 capitalRuns_clear r hr) s hs
    simp only [CapitalRun.clears, Bool.or_eq_true, Bool.and_eq_true, Nat.blt_eq, beq_iff_eq] at hc
    rw [Bool.eq_false_iff]
    intro hcon
    obtain ⟨h4, h5, h6⟩ := CapitalRun.holds_iff.1 hcon
    rcases hc with (hc | hc) | ⟨⟨hstep, hsame⟩, hodd⟩
    · omega
    · omega
    · -- both runs take every other character, and the one starts beside the other
      rw [hstep] at h6
      rcases hsame with hsame | hsame
      · rw [hsame] at h3
        omega
      · omega

end Lowered

/-! ## 3. Letters -/

def IsSmall (c : Char) : Prop := lowerChar c = c ∧ c ≠ 'Σ' ∧ c ≠ 'İ'

instance (c : Char) : Decidable (IsSmall c) :=
  inferInstanceAs (Decidable (lowerChar c = c ∧ c ≠ 'Σ' ∧ c ≠ 'İ'))

theorem lowerChar_of_lt {c : Char} (h : c.toNat < 0x80) : lowerChar c = c.toLower := if_pos h

theorem lowerChar_of_not_holds {c : Char} (h : ∀ r ∈ capitalRuns, r.holds c.toNat = false) :
    lowerChar c = if c.toNat < 0x80 then c.toLower else c := by
  have hf : capitalRuns.find? (·.holds c.toNat) = none := by
    rw [List.find?_eq_none]
    intro r hr
    rw [h r hr]
    exact Bool.false_ne_true
  rw [lowerChar, hf]

-- The small letter of a character beyond ASCII.
theorem lowerChar_cases {c : Char} (hc : 0x80 ≤ c.toNat) :
    (lowerChar c = c ∧ ∀ r ∈ capitalRuns, r.holds c.toNat = false) ∨
      ∃ r ∈ capitalRuns, r.holds c.toNat = true ∧
        lowerChar c = Char.ofNat (c.toNat + r.shift).toNat := by
  cases hf : capitalRuns.find? (·.holds c.toNat) with
  | none =>
    have hn : ∀ r ∈ capitalRuns, r.holds c.toNat = false := by
      intro r hr
      exact Bool.eq_false_iff.2 (List.find?_eq_none.1 hf r hr)
    refine Or.inl ⟨?_, hn⟩
    rw [lowerChar_of_not_holds hn, if_neg (by omega)]
  | some r =>
    refine Or.inr ⟨r, List.mem_of_find?_eq_some hf, by simpa using List.find?_some hf, ?_⟩
    rw [lowerChar, if_neg (by omega), hf]

theorem forall_ascii {P : Char → Prop} (h : ∀ n < 0x80, P (Char.ofNat n)) {c : Char}
    (hc : c.toNat < 0x80) : P c := by
  rw [← Char.ofNat_toNat c]
  exact h c.toNat hc

theorem lowerChar_ascii {c : Char} (hc : c.toNat < 0x80) :
    IsSmall (lowerChar c) ∧ (isWordChar c = true → isWordChar (lowerChar c) = true) := by
  refine forall_ascii (P := fun c => IsSmall (lowerChar c) ∧
    (isWordChar c = true → isWordChar (lowerChar c) = true)) ?_ hc
  decide +kernel

theorem toLower_of_ge {c : Char} (h : 0x80 ≤ c.toNat) : c.toLower = c := by
  apply dif_neg
  rintro ⟨-, hz⟩
  have hz : c.toNat ≤ 90 := hz
  omega

theorem isSmall_of_not_holds {c : Char} (hc : 0x80 ≤ c.toNat) (hd : c ≠ 'İ')
    (h : ∀ r ∈ capitalRuns, r.holds c.toNat = false) : IsSmall c := by
  refine ⟨by rw [lowerChar_of_not_holds h, if_neg (by omega)], ?_, hd⟩
  rintro rfl
  have hs : ∃ r ∈ capitalRuns, r.holds 'Σ'.toNat = true := by decide +kernel
  obtain ⟨r, hr, hh⟩ := hs
  rw [h r hr] at hh
  exact Bool.false_ne_true hh

theorem toNat_ofNat_of_wordRange {w : Nat × Nat} {n : Nat} (hw : w ∈ wordRanges) (h1 : w.1 ≤ n)
    (h2 : n ≤ w.2) : (Char.ofNat n).toNat = n := by
  rw [Char.ofNat, dif_pos (isValidChar_of_wordRange hw h1 h2).2]
  rfl

-- The small letter of a character is small, but for the dotted capital.
theorem isSmall_lowerChar {c : Char} (hd : c ≠ 'İ') : IsSmall (lowerChar c) := by
  by_cases hc : c.toNat < 0x80
  · exact (lowerChar_ascii hc).1
  · rcases lowerChar_cases (Nat.le_of_not_lt hc) with ⟨he, hn⟩ | ⟨r, hr, hh, he⟩
    · rw [he]
      exact isSmall_of_not_holds (Nat.le_of_not_lt hc) hd hn
    · obtain ⟨hm | ⟨w, hw, h1, h2⟩, hdot, hclear⟩ := shift_cases hr hh
      · rw [he, hm]
        decide +kernel
      · have hn := toNat_ofNat_of_wordRange hw h1 h2
        rw [← hn] at hdot hclear
        rw [he]
        refine isSmall_of_not_holds ?_ (fun h => hdot (congrArg Char.toNat h)) hclear
        rw [hn]
        exact (isValidChar_of_wordRange hw h1 h2).1

theorem isWordChar_of_wordRange {c : Char} {w : Nat × Nat} (hw : w ∈ wordRanges)
    (h1 : w.1 ≤ c.toNat) (h2 : c.toNat ≤ w.2) : isWordChar c = true := by
  have hin : inRanges wordRanges c.toNat = true :=
    List.any_eq_true.2 ⟨w, hw, by simp [h1, h2]⟩
  simp [isWordChar, hin, (isValidChar_of_wordRange hw h1 h2).1]

theorem isWordChar_lowerChar {c : Char} (h : isWordChar c = true) :
    isWordChar (lowerChar c) = true := by
  by_cases hc : c.toNat < 0x80
  · exact (lowerChar_ascii hc).2 h
  · rcases lowerChar_cases (Nat.le_of_not_lt hc) with ⟨he, -⟩ | ⟨r, hr, hh, he⟩
    · rwa [he]
    · obtain ⟨hm | ⟨w, hw, h1, h2⟩, -⟩ := shift_cases hr hh
      · rw [he, hm]
        decide
      · have hn := toNat_ofNat_of_wordRange hw h1 h2
        rw [← hn] at h1 h2
        rw [he]
        exact isWordChar_of_wordRange hw h1 h2

/-! ## 4. Texts -/

theorem lowerAfter_ne_nil {before t : Text} (h : t ≠ []) : lowerAfter before t ≠ [] := by
  cases t with
  | nil => exact absurd rfl h
  | cons c r =>
    unfold lowerAfter
    apply List.append_ne_nil_of_left_ne_nil
    split
    · split <;> exact List.cons_ne_nil _ _
    · split <;> exact List.cons_ne_nil _ _

-- Where a character of a text in lower case comes from.
theorem mem_lowerAfter {x : Char} {before t : Text} (h : x ∈ lowerAfter before t) :
    x ∈ ['ς', 'σ', 'i', '\u0307'] ∨ ∃ c ∈ t, c ≠ 'İ' ∧ x = lowerChar c := by
  induction t generalizing before with
  | nil => exact absurd h List.not_mem_nil
  | cons c r ih =>
    rw [lowerAfter, List.mem_append] at h
    rcases h with h | h
    · by_cases hs : c = 'Σ'
      · rw [if_pos hs] at h
        split at h
        · exact Or.inl (by simp [List.mem_singleton.1 h])
        · exact Or.inl (by simp [List.mem_singleton.1 h])
      · rw [if_neg hs] at h
        by_cases hd : c = 'İ'
        · rw [if_pos hd] at h
          exact Or.inl (List.mem_cons_of_mem _ (List.mem_cons_of_mem _ h))
        · rw [if_neg hd] at h
          exact Or.inr ⟨c, List.mem_cons_self, hd, List.mem_singleton.1 h⟩
    · rcases ih h with h | ⟨d, hd, he⟩
      · exact Or.inl h
      · exact Or.inr ⟨d, List.mem_cons_of_mem c hd, he⟩

theorem isSmall_of_mem_lower {x : Char} {t : Text} (h : x ∈ lower t) : IsSmall x := by
  rcases mem_lowerAfter h with h | ⟨c, -, hd, rfl⟩
  · have hall : ['ς', 'σ', 'i', '\u0307'].all fun y => IsSmall y := by decide +kernel
    exact of_decide_eq_true (List.all_eq_true.1 hall x h)
  · exact isSmall_lowerChar hd

/-- A word is still one in lower case. -/
theorem isWordChar_of_mem_lower {x : Char} {t : Text} (ht : ∀ c ∈ t, isWordChar c = true)
    (h : x ∈ lower t) : isWordChar x = true := by
  rcases mem_lowerAfter h with h | ⟨c, hc, -, rfl⟩
  · have hall : ['ς', 'σ', 'i', '\u0307'].all isWordChar := by decide +kernel
    exact List.all_eq_true.1 hall x h
  · exact isWordChar_lowerChar (ht c hc)

theorem lowerAfter_eq_self {t : Text} (h : ∀ c ∈ t, IsSmall c) (before : Text) :
    lowerAfter before t = t := by
  induction t generalizing before with
  | nil => rfl
  | cons c r ih =>
    obtain ⟨hc, hs, hd⟩ := h c List.mem_cons_self
    rw [lowerAfter, if_neg hs, if_neg hd, hc, ih fun x hx => h x (List.mem_cons_of_mem c hx)]
    rfl

/-- Lower case is the same when it is put in lower case again. -/
theorem lower_lower (t : Text) : lower (lower t) = lower t :=
  lowerAfter_eq_self (fun _ h => isSmall_of_mem_lower h) []

theorem toLower_of_isSmall {c : Char} (h : IsSmall c) : c.toLower = c := by
  by_cases hc : c.toNat < 0x80
  · rw [← lowerChar_of_lt hc, h.1]
  · exact toLower_of_ge (Nat.le_of_not_lt hc)

theorem lowerAscii_lower (t : Text) : lowerAscii (lower t) = lower t := by
  have h : ∀ c ∈ lower t, c.toLower = id c := fun c hc =>
    toLower_of_isSmall (isSmall_of_mem_lower hc)
  rw [lowerAscii, List.map_congr_left h, List.map_id]

end Baselines.Text
