import Baselines.Proofs.Comparison.Equivalence
import Baselines.Proofs.Diff.Changes
import Baselines.Proofs.Diff.Lines

/-!
# What is said of a mismatch

Outputs that do not match have other normal forms. So their diff is not empty and its counts make up
the difference of their lengths, and the first line that differs is missing exactly where the normal
forms differ in nothing but carriage returns before line feeds.
-/

namespace Baselines

namespace Text

/-! ## 1. Carriage returns before line feeds -/

/-- The text with a line feed for every carriage return and line feed in that order. -/
def plainEnds (t : Text) : Text := replace "\r\n" "\n" t

theorem plainEnds_return_lineFeed (t : Text) :
    plainEnds ('\r' :: '\n' :: t) = '\n' :: plainEnds t := by
  simp [plainEnds, replace, replaceFrom, startsWith, dropLead?]

theorem plainEnds_cons {c : Char} {t : Text} (h : c = '\r' → t.head? ≠ some '\n') :
    plainEnds (c :: t) = c :: plainEnds t := by
  have hs : startsWith (c :: t) ['\r', '\n'] = false := by
    rw [startsWith, Option.isSome_eq_false_iff, Option.isNone_iff_eq_none,
      Option.eq_none_iff_forall_ne_some]
    intro r hr
    obtain ⟨rfl, rfl⟩ := List.cons.inj (dropLead?_eq_some.1 hr)
    exact h rfl rfl
  simp [plainEnds, replace, replaceFrom, hs]

theorem unlines_cons_cons (c : Char) (l : Text) (ls : List Text) :
    unlines ((c :: l) :: ls) = c :: unlines (l :: ls) := by
  cases ls <;> rfl

/-- The rows of a text, joined, are the text with plain ends. -/
theorem plainEnds_eq (t : Text) : plainEnds t = unlines (rows t) := by
  induction t using Diff.cutLines_cases with
  | nil => rfl
  | pair r ih =>
    rw [plainEnds_return_lineFeed, rows_return_lineFeed, unlines_cons [] (rows_ne_nil r), ih]
    rfl
  | single c r hc hr ih =>
    rw [plainEnds_cons hr, ih]
    rcases hc with rfl | rfl
    · rw [rows_lineFeed, unlines_cons [] (rows_ne_nil r)]
      rfl
    · obtain ⟨l, ls, hl⟩ := List.exists_cons_of_ne_nil (rows_ne_nil r)
      rw [rows_cons (by decide) hr hl, unlines_cons_cons, hl]
  | inner c r hc ih =>
    rw [not_or] at hc
    have hr : c = '\r' → r.head? ≠ some '\n' := fun he => absurd he hc.2
    obtain ⟨l, ls, hl⟩ := List.exists_cons_of_ne_nil (rows_ne_nil r)
    rw [plainEnds_cons hr, rows_cons hc.1 hr hl, unlines_cons_cons, ih, hl]

-- Of a text without a line feed at its end the last line is not empty.
theorem rows_of_getLast? {t : Text} (h : t.getLast? ≠ some '\n') :
    rows t = orEmpty (lines t) ∧ (lines t).getLast? ≠ some [] := by
  by_cases ht : t = []
  · rw [ht]
    exact ⟨rfl, by decide⟩
  · have hlast : ∀ front, rows t ≠ front ++ [[]] := by
      intro front hf
      rcases last_row hf with ⟨-, he⟩ | ⟨s, he⟩
      · exact ht he
      · exact h (by rw [he, List.getLast?_append_of_ne_nil _ (by simp)]; rfl)
    have hrows : rows t = lines t := (rows_eq_lines t).resolve_right (hlast _)
    refine ⟨?_, fun hl => ?_⟩
    · rw [orEmpty, if_neg (lines_eq_nil.not.2 ht), hrows]
    · obtain ⟨front, hf⟩ := List.getLast?_eq_some_iff.1 hl
      exact hlast front (hrows.trans hf)

/-- Texts without a line feed at their ends have the same lines exactly when they are the same but
for carriage returns before line feeds. -/
theorem lines_eq_iff_plainEnds {s t : Text} (hs : s.getLast? ≠ some '\n')
    (ht : t.getLast? ≠ some '\n') : lines s = lines t ↔ plainEnds s = plainEnds t := by
  obtain ⟨hrs, hls⟩ := rows_of_getLast? hs
  obtain ⟨hrt, hlt⟩ := rows_of_getLast? ht
  rw [plainEnds_eq, plainEnds_eq, hrs, hrt, unlines, unlines, join_orEmpty, join_orEmpty]
  exact ⟨fun h => by rw [h], fun h => unlines_injective (fun _ => not_mem_lines)
    (fun _ => not_mem_lines) hls hlt h⟩

end Text

namespace Comparison

open Text

/-! ## 2. Mismatches -/

theorem getLast?_normalize (t : Text) : (normalize t).getLast? ≠ some '\n' := by
  intro h
  have := getLast?_dropEndWhile h
  exact absurd this (by decide)

variable {expected actual : Text} {mode : Mode} {m : Mismatch}

theorem mismatch_eq_some (h : (compare expected actual mode).mismatch = some m) :
    normalize expected ≠ normalize actual ∧
      m = difference (normalize expected) (normalize actual) := by
  unfold compare compareBy at h
  dsimp only at h
  split at h
  · exact absurd h (by simp)
  · rename_i hn
    refine ⟨fun he => hn ?_, (Option.some.inj h).symm⟩
    rw [he]
    exact agree_self mode _

/-- What is said of two texts by a script that leads from the lines of one to those of the other, and
by a diff that is empty only where the script keeps every line. -/
theorem faithful_of_script {e a diff : Text} {s : Diff.Script}
    (hv : Diff.Valid s (Diff.cutLines (Diff.terminated e)) (Diff.cutLines (Diff.terminated a)))
    (hdiff : diff = [] → ∀ x ∈ s, x.action = .keep) (he : e.getLast? ≠ some '\n')
    (ha : a.getLast? ≠ some '\n') (hne : e ≠ a) :
    diff ≠ [] ∧ 0 < (Diff.stats s).inserted + (Diff.stats s).deleted ∧
      ((Diff.stats s).inserted : Int) - (Diff.stats s).deleted =
        (Diff.lineCount a : Int) - Diff.lineCount e ∧
      (∀ k, Diff.firstDifferingLine e a = some k ↔ 0 < k ∧
        (lines e).take (k - 1) = (lines a).take (k - 1) ∧ (lines e)[k - 1]? ≠ (lines a)[k - 1]?) ∧
      (Diff.firstDifferingLine e a = none ↔ plainEnds e = plainEnds a) := by
  -- the lines of the diff are other lines, as the texts are others
  have hviews : s.old ≠ s.new := by
    rw [hv.old_eq, hv.new_eq]
    exact fun hc => hne (Diff.terminated_injective he ha (Diff.cutLines_injective hc))
  have hcount := Diff.length_old_add_inserted s
  rw [hv.old_eq, hv.new_eq, Diff.length_cutLines_terminated he,
    Diff.length_cutLines_terminated ha] at hcount
  refine ⟨fun hd => ?_, ?_, ?_, fun k => ?_, ?_⟩
  · exact hviews (Diff.old_eq_new_of_keeps (hdiff hd))
  · exact Nat.pos_of_ne_zero fun hz => hviews (Diff.old_eq_new_of_stats hz)
  · omega
  · change Diff.firstDifference 1 (lines e) (lines a) = _ ↔ _
    rw [Diff.firstDifference_eq_some]
    constructor
    · rintro ⟨i, rfl, hl⟩
      rw [Nat.add_sub_cancel_left]
      exact ⟨by omega, hl⟩
    · exact fun ⟨hk, hl⟩ => ⟨k - 1, by omega, hl⟩
  · rw [← lines_eq_iff_plainEnds he ha]
    exact Diff.firstDifference_eq_none

/-- A mismatch is told truly: its diff is not empty and counts a change, it counts as many more
insertions than deletions as the normal form of the actual output has more lines than that of the
expected one, the first line it names is the first at which the lines of the normal forms differ, and
it names none exactly when the normal forms are the same but for carriage returns before line
feeds. -/
theorem mismatch_faithful (h : (compare expected actual mode).mismatch = some m) :
    m.diff ≠ [] ∧ 0 < m.stats.inserted + m.stats.deleted ∧
      (m.stats.inserted : Int) - m.stats.deleted =
        (Diff.lineCount (normalize actual) : Int) - Diff.lineCount (normalize expected) ∧
      (∀ k, m.firstLine = some k ↔ 0 < k ∧
        (lines (normalize expected)).take (k - 1) = (lines (normalize actual)).take (k - 1) ∧
          (lines (normalize expected))[k - 1]? ≠ (lines (normalize actual))[k - 1]?) ∧
      (m.firstLine = none ↔
        plainEnds (normalize expected) = plainEnds (normalize actual)) := by
  obtain ⟨hne, rfl⟩ := mismatch_eq_some h
  have he := getLast?_normalize expected
  have ha := getLast?_normalize actual
  generalize normalize expected = e at hne he ⊢
  generalize normalize actual = a at hne ha ⊢
  have hempty : Diff.unifiedText Diff.usualContext (Diff.script e a) = [] →
      ∀ x ∈ Diff.script e a, x.action = .keep := Diff.unifiedText_eq_nil.1
  have hfaithful := faithful_of_script (Diff.valid_script e a) hempty he ha hne
  exact hfaithful

-- Where only a carriage return is too many, no line is named.
def returnMismatch : Mismatch where
  diff := "--- expected\n+++ actual\n@@ -1,2 +1,2 @@\n-a\r\n+a\n b\n"
  stats := { inserted := 1, deleted := 1 }
  firstLine := none

-- A carriage return alone ends a line of the diff, and none of the text.
def lineMismatch : Mismatch where
  diff := "--- expected\n+++ actual\n@@ -1 +1,3 @@\n-a\n+a\r+b\n+c\n"
  stats := { inserted := 3, deleted := 1 }
  firstLine := some 1

theorem mismatch_faithful_returns :
    (compare "a\r\r\nb" "a\nb" .exact).mismatch = some returnMismatch ∧
      plainEnds (normalize "a\r\r\nb") = plainEnds (normalize "a\nb") ∧
      (compare "a" "a\rb\nc" .normalized).mismatch = some lineMismatch ∧
      (3 : Int) - 1 = (Diff.lineCount (normalize "a\rb\nc") : Int) - Diff.lineCount (normalize "a") := by
  have hr : (compare "a\r\r\nb" "a\nb" .exact).mismatch = some returnMismatch := by decide +kernel
  have hl : (compare "a" "a\rb\nc" .normalized).mismatch = some lineMismatch := by decide +kernel
  obtain ⟨-, -, -, -, hends⟩ := mismatch_faithful hr
  obtain ⟨-, -, hcount, -⟩ := mismatch_faithful hl
  exact ⟨hr, hends.1 rfl, hl, hcount⟩

end Comparison

end Baselines
