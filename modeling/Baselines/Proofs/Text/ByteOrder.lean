import Baselines.Proofs.Table
import Baselines.Proofs.Text.Encoding

/-!
# The order of encoded texts

Texts are ordered by their characters exactly as their bytes in UTF-8 are.
-/

namespace Baselines.Encoding

/-! ## 1. Bytes of characters -/

-- Bytes are ordered by the first numbers that differ.
theorem byte_cons_lt {n m : Nat} {x y : Bytes} (hn : n < 256) (hm : m < 256) (hle : n ≤ m)
    (h : n = m → x < y) : UInt8.ofNat n :: x < UInt8.ofNat m :: y := by
  rw [List.cons_lt_cons_iff]
  by_cases he : n = m
  · exact Or.inr ⟨congrArg UInt8.ofNat he, h he⟩
  · left
    rw [UInt8.lt_iff_toNat_lt, toNat_byte hn, toNat_byte hm]
    omega

/-- The bytes of a smaller character come first, whatever follows them. -/
theorem utf8Char_append_lt {c d : Char} (h : c.toNat < d.toNat) (x y : Bytes) :
    utf8Char c ++ x < utf8Char d ++ y := by
  have hd := toNat_char d
  unfold utf8Char
  simp only
  -- the larger character has more bytes and a larger first one, or as many, and then they are
  -- compared one after the other
  by_cases c1 : c.toNat < 0x80
  · rw [if_pos c1]
    by_cases d1 : d.toNat < 0x80
    · rw [if_pos d1]
      exact byte_cons_lt (by omega) (by omega) (by omega) fun h₁ => absurd h₁ (by omega)
    · rw [if_neg d1]
      split_ifs
      all_goals exact byte_cons_lt (by omega) (by omega) (by omega) fun h₁ => absurd h₁ (by omega)
  · rw [if_neg c1, if_neg (by omega : ¬ d.toNat < 0x80)]
    by_cases c2 : c.toNat < 0x800
    · rw [if_pos c2]
      by_cases d2 : d.toNat < 0x800
      · rw [if_pos d2]
        refine byte_cons_lt (by omega) (by omega) (by omega) fun h₁ => ?_
        exact byte_cons_lt (by omega) (by omega) (by omega) fun h₂ => absurd h₂ (by omega)
      · rw [if_neg d2]
        split_ifs
        all_goals exact byte_cons_lt (by omega) (by omega) (by omega) fun h₁ => absurd h₁ (by omega)
    · rw [if_neg c2, if_neg (by omega : ¬ d.toNat < 0x800)]
      by_cases c3 : c.toNat < 0x10000
      · rw [if_pos c3]
        by_cases d3 : d.toNat < 0x10000
        · rw [if_pos d3]
          refine byte_cons_lt (by omega) (by omega) (by omega) fun h₁ => ?_
          refine byte_cons_lt (by omega) (by omega) (by omega) fun h₂ => ?_
          exact byte_cons_lt (by omega) (by omega) (by omega) fun h₃ => absurd h₃ (by omega)
        · rw [if_neg d3]
          exact byte_cons_lt (by omega) (by omega) (by omega) fun h₁ => absurd h₁ (by omega)
      · rw [if_neg c3, if_neg (by omega : ¬ d.toNat < 0x10000)]
        refine byte_cons_lt (by omega) (by omega) (by omega) fun h₁ => ?_
        refine byte_cons_lt (by omega) (by omega) (by omega) fun h₂ => ?_
        refine byte_cons_lt (by omega) (by omega) (by omega) fun h₃ => ?_
        exact byte_cons_lt (by omega) (by omega) (by omega) fun h₄ => absurd h₄ (by omega)

/-! ## 2. Texts -/

theorem utf8Encode_injective {s t : Text} (h : utf8Encode s = utf8Encode t) : s = t := by
  have hd := congrArg utf8Decode? h
  rwa [utf8Decode?_utf8Encode, utf8Decode?_utf8Encode, Option.some.injEq] at hd

theorem utf8Encode_lt_of_precedes {s t : Text} (h : Text.Precedes s t) :
    utf8Encode s < utf8Encode t := by
  induction s generalizing t with
  | nil =>
    cases t with
    | nil => exact absurd h (Text.not_precedes_self _)
    | cons d t =>
      obtain ⟨n, r, hd, -⟩ := utf8Char_head d
      rw [utf8Encode_cons, hd]
      exact List.nil_lt_cons _ _
  | cons c s ih =>
    cases t with
    | nil => exact absurd h (by simp [Text.Precedes, Text.before])
    | cons d t =>
      have hn : ¬ (d < c ∨ d = c ∧ Text.before t s = true) := by
        rw [← Text.before_cons]
        exact Bool.eq_false_iff.1 h
      rw [not_or, not_and] at hn
      rw [utf8Encode_cons, utf8Encode_cons]
      by_cases he : d = c
      · rw [he]
        exact List.append_left_lt (ih (Bool.eq_false_iff.2 (hn.2 he)))
      · refine utf8Char_append_lt ?_ _ _
        have hle : c ≤ d := Char.not_lt.1 hn.1
        have hne : c.toNat ≠ d.toNat := fun h => he (Char.toNat_inj.1 h.symm)
        exact lt_of_le_of_ne hle hne

/-- The order of texts is the order of their bytes. -/
theorem utf8Encode_lt_iff {s t : Text} : utf8Encode s < utf8Encode t ↔ Text.Precedes s t := by
  refine ⟨fun h => Bool.eq_false_iff.2 fun hts => ?_, utf8Encode_lt_of_precedes⟩
  by_cases he : t = s
  · rw [he] at h
    exact List.lt_irrefl _ h
  · exact List.lt_asymm h (utf8Encode_lt_of_precedes (Text.precedes_of_before hts he))

end Baselines.Encoding
