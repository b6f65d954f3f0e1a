import Mathlib.Data.List.TakeWhile
import Baselines.Script.Parse

/-!
# Layouts

What a text is made of besides given pieces: blanks and comments. Places in a text are cursors whose
rest is what comes after them, and what a rule passes over is a stretch of the text between two
places.
-/

namespace Baselines.Script

/-! ## 1. Gaps -/

/-- A comment: up to the end of a line, or up to the first end of a block. -/
inductive Comment : Text → Prop where
  | line {t : Text} (h : ∀ c ∈ t, isLineEnd c = false ∧ c ≠ '\r') : Comment ('/' :: '/' :: t)
  | block {t : Text} (h : ¬ ['*', '/'] <:+: t ++ ['*']) : Comment ('/' :: '*' :: (t ++ ['*', '/']))
  | html {m t : Text} (hm : m = "<!--".toList ∨ m = "-->".toList)
      (h : ∀ c ∈ t, isLineEnd c = false) : Comment (m ++ t)

/-- Blanks and comments. -/
inductive Gap : Text → Prop where
  | nil : Gap []
  | blank {c : Char} {t : Text} (h : isBlank c = true) (ht : Gap t) : Gap (c :: t)
  | comment {s t : Text} (h : Comment s) (ht : Gap t) : Gap (s ++ t)

theorem Gap.append {s t : Text} (hs : Gap s) (ht : Gap t) : Gap (s ++ t) := by
  induction hs with
  | nil => exact ht
  | blank h _ ih => exact .blank h ih
  | comment h _ ih => rw [List.append_assoc]; exact .comment h ih

theorem gap_of_blanks {t : Text} (h : ∀ c ∈ t, isBlank c = true) : Gap t := by
  induction t with
  | nil => exact .nil
  | cons c r ih => exact .blank (h c (by simp)) (ih fun x hx => h x (by simp [hx]))

theorem Comment.gap {t : Text} (h : Comment t) : Gap t := by
  simpa using Gap.comment h .nil

/-- A text made of pieces in order, with blanks and comments before, between and after them. -/
inductive Layout : List Text → Text → Prop where
  | gap {g : Text} (hg : Gap g) : Layout [] g
  | piece {g p r : Text} {ps : List Text} (hg : Gap g) (hr : Layout ps r) :
      Layout (p :: ps) (g ++ (p ++ r))

theorem Layout.gap_append {g t : Text} {ps : List Text} (hg : Gap g) (ht : Layout ps t) :
    Layout ps (g ++ t) := by
  cases ht with
  | gap h => exact .gap (hg.append h)
  | piece h hr => rw [← List.append_assoc]; exact .piece (hg.append h) hr

theorem Layout.append {ps qs : List Text} {s t : Text} (hs : Layout ps s) (ht : Layout qs t) :
    Layout (ps ++ qs) (s ++ t) := by
  induction hs with
  | gap hg => exact ht.gap_append hg
  | piece hg _ ih =>
    rw [List.append_assoc, List.append_assoc]
    exact .piece hg ih

theorem Layout.single (p : Text) : Layout [p] p := by
  simpa using Layout.piece (p := p) .nil (.gap .nil)

/-! ## 2. Comments as they are read -/

-- The rest of a block ends at the first end of a block.
theorem blockLength?_eq_some {t : Text} {n : Nat} (h : blockLength? t = some n) :
    ∃ s, t.take n = s ++ ['*', '/'] ∧ ¬ ['*', '/'] <:+: s ++ ['*'] := by
  fun_induction blockLength? t generalizing n with
  | case1 => cases h
  | case2 r =>
    cases h
    exact ⟨[], by simp, by decide⟩
  | case3 c r hne ih =>
    obtain ⟨k, hk, rfl⟩ := Option.map_eq_some_iff.1 h
    obtain ⟨s, hs, hn⟩ := ih hk
    refine ⟨c :: s, by simp [hs], ?_⟩
    rw [List.cons_append, List.infix_cons_iff, not_or]
    refine ⟨fun hp => ?_, hn⟩
    -- the mark would stand at the head of the text already
    rw [List.cons_prefix_cons] at hp
    obtain ⟨rfl, hp⟩ := hp
    cases s with
    | nil => simp at hp
    | cons d s =>
      obtain rfl : '/' = d := by simpa using hp
      cases r with
      | nil => simp at hs
      | cons x r =>
        obtain ⟨m, rfl⟩ : ∃ m, k = m + 1 := by
          cases k with
          | zero => simp at hs
          | succ m => exact ⟨m, rfl⟩
        obtain rfl : x = '/' := by simpa using (List.cons.inj (by simpa using hs)).1
        exact hne r rfl rfl

theorem takeWhile_eq_take (p : Char → Bool) (t : Text) :
    t.take (t.takeWhile p).length = t.takeWhile p :=
  (List.prefix_iff_eq_take.1 (List.takeWhile_prefix p)).symm

theorem commentLength?_eq_some {t : Text} {n : Nat} (h : commentLength? t = some n) :
    Comment (t.take n) := by
  unfold commentLength? at h
  split at h
  · cases h
    rw [Nat.add_comm, List.take_succ_cons, List.take_succ_cons, takeWhile_eq_take]
    refine .line fun c hc => ?_
    simpa using List.mem_takeWhile_imp hc
  · obtain ⟨k, hk, rfl⟩ := Option.map_eq_some_iff.1 h
    obtain ⟨s, hs, hn⟩ := blockLength?_eq_some hk
    rw [List.take_succ_cons, List.take_succ_cons, hs]
    exact .block hn
  · cases h

theorem startsWith_iff {t m : Text} : Text.startsWith t m = true ↔ ∃ r, t = m ++ r := by
  simp [Text.startsWith, Option.isSome_iff_exists, Text.dropLead?_eq_some]

theorem htmlCommentLength?_eq_some {t : Text} {n : Nat} (h : htmlCommentLength? t = some n) :
    Comment (t.take n) := by
  unfold htmlCommentLength? at h
  split at h
  · next hs =>
    cases h
    rw [takeWhile_eq_take]
    simp only [Bool.or_eq_true, startsWith_iff] at hs
    rcases hs with ⟨r, rfl⟩ | ⟨r, rfl⟩
    · rw [List.takeWhile_append_of_pos (by simp [isLineEnd])]
      exact .html (.inl rfl) fun c hc => by simpa using List.mem_takeWhile_imp hc
    · rw [List.takeWhile_append_of_pos (by simp [isLineEnd])]
      exact .html (.inr rfl) fun c hc => by simpa using List.mem_takeWhile_imp hc
  · cases h

end Baselines.Script
