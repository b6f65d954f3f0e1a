import Baselines.Comparison
import Baselines.Proofs.MarkedFile.CodeLines

/-!
# Normal forms of outputs

The normal form of an output is its lines of code, joined, without the empty ones at their end. It is
read back line by line, so two outputs have one normal form exactly when those lines are the same.
-/

namespace Baselines.Comparison

open Text MarkedFile

/-! ## 1. The lines of a normal form -/

/-- The lines of the normal form of an output. -/
def normalLines (t : Text) : List Text := dropEmptyEnd (codeLines (rows (dropMark t)))

-- An empty row behind the last line makes no difference.
theorem normalLines_eq (t : Text) :
    normalLines t = dropEmptyEnd (codeLines (lines (dropMark t))) := by
  unfold normalLines
  rcases rows_eq_lines (dropMark t) with he | he
  · rw [he]
  · rw [he, dropEmptyEnd_codeLines_append_empty]

theorem not_mem_normalLines {t l : Text} (h : l ∈ normalLines t) : '\n' ∉ l :=
  not_mem_codeLines (fun _ hx => not_mem_rows hx) (mem_of_mem_dropEmptyEnd h)

/-- Normalizing gives the lines of the normal form, joined. -/
theorem normalize_eq (t : Text) : normalize t = unlines (normalLines t) := by
  have hl : ∀ l ∈ codeLines (lines (dropMark t)), '\n' ∉ l := fun l hm =>
    not_mem_codeLines (fun _ hx => not_mem_lines hx) hm
  rw [normalize, code_parse, dropLineFeeds_unlines hl, normalLines_eq]

theorem normalize_eq_iff {s t : Text} : normalize s = normalize t ↔ normalLines s = normalLines t := by
  rw [normalize_eq, normalize_eq]
  constructor
  · intro h
    exact unlines_injective (fun _ => not_mem_normalLines) (fun _ => not_mem_normalLines)
      (getLast?_dropEmptyEnd _) (getLast?_dropEmptyEnd _) h
  · intro h
    rw [h]

theorem normalLines_nil : normalLines [] = [] := rfl

theorem normalize_eq_nil {t : Text} : normalize t = [] ↔ normalLines t = [] := by
  rw [← normalLines_nil, ← normalize_eq_iff]
  exact Iff.rfl

-- The lines of a normal form are the pieces of its text.
theorem splitOn_normalize (t : Text) : splitOn '\n' (normalize t) = orEmpty (normalLines t) := by
  rw [normalize_eq]
  exact splitOn_unlines fun _ => not_mem_normalLines

/-- A property of lines that the empty line has holds of the pieces of a normal form exactly when it
holds of its lines. -/
theorem forall_splitOn_normalize {p : Text → Prop} (hp : p []) (t : Text) :
    (∀ l ∈ splitOn '\n' (normalize t), p l) ↔ ∀ l ∈ normalLines t, p l := by
  rw [splitOn_normalize]
  unfold orEmpty
  split
  · rename_i h
    rw [h]
    simp [hp]
  · exact Iff.rfl

/-! ## 2. Normal forms of joined lines -/

-- Returns at the ends of lines do not change which lines are markers.
theorem codeLines_map_dropReturn (ls : List Text) :
    codeLines (ls.map dropReturn) = (codeLines ls).map dropReturn := by
  induction ls with
  | nil => rfl
  | cons l r ih =>
    have hlead : leads (r.map dropReturn) = leads r := by
      cases r with
      | nil => rfl
      | cons x s => rw [List.map_cons, leads_cons, leads_cons, isMarker_dropReturn]
    cases hl : isMarker l with
    | false =>
      rw [List.map_cons, codeLines_cons_code ((isMarker_dropReturn l).trans hl),
        codeLines_cons_code hl, ih, List.map_cons]
    | true =>
      rw [List.map_cons, codeLines_cons_marker ((isMarker_dropReturn l).trans hl),
        codeLines_cons_marker hl, hlead, ih]
      split
      · rfl
      · rfl

theorem mem_dropMarkLine {l : Text} {ls : List Text} (h : l ∈ dropMarkLine ls) :
    ∃ k ∈ ls, l = k ∨ k = '\uFEFF' :: l := by
  cases ls with
  | nil => exact absurd h List.not_mem_nil
  | cons x r =>
    rw [dropMarkLine, List.mem_cons] at h
    rcases h with rfl | h
    · refine ⟨x, List.mem_cons_self, ?_⟩
      cases hx : hasMark x with
      | false => exact Or.inl (dropMark_of_not hx)
      | true => exact Or.inr (eq_mark_cons hx)
    · exact ⟨l, List.mem_cons_of_mem x h, Or.inl rfl⟩

theorem endsInReturn_getLast?_dropMarkLine {ls : List Text}
    (h : ∀ l, ls.getLast? = some l → endsInReturn l = false) :
    ∀ l, (dropMarkLine ls).getLast? = some l → endsInReturn l = false := by
  intro l hl
  cases ls with
  | nil => simp [dropMarkLine] at hl
  | cons x r =>
    cases r with
    | cons y s =>
      apply h
      rw [dropMarkLine, List.getLast?_cons_cons] at hl
      rw [List.getLast?_cons_cons]
      exact hl
    | nil =>
      have hx : endsInReturn x = false := h x rfl
      obtain rfl : dropMark x = l := by simpa [dropMarkLine] using hl
      cases hm : hasMark x with
      | false => rwa [dropMark_of_not hm]
      | true =>
        cases hd : dropMark x with
        | nil => rfl
        | cons y s =>
          rw [eq_mark_cons hm, hd] at hx
          exact hx

/-- The normal form of joined lines, of which the last has no return at its end. -/
theorem normalLines_unlines {ls : List Text} (h : ls ≠ []) (hl : ∀ l ∈ ls, '\n' ∉ l)
    (hr : ∀ l, ls.getLast? = some l → endsInReturn l = false) :
    normalLines (unlines ls) = dropEmptyEnd ((codeLines (dropMarkLine ls)).map dropReturn) := by
  have hne : dropMarkLine ls ≠ [] := by
    cases ls with
    | nil => exact absurd rfl h
    | cons x r => exact List.cons_ne_nil _ _
  have hl' : ∀ l ∈ dropMarkLine ls, '\n' ∉ l := by
    intro l hm
    obtain ⟨k, hk, he | he⟩ := mem_dropMarkLine hm
    · exact he ▸ hl k hk
    · have := hl k hk
      rw [he, List.mem_cons, not_or] at this
      exact this.2
  unfold normalLines
  rw [dropMark_unlines, rows_unlines hne hl',
    rowsOf_eq_map (endsInReturn_getLast?_dropMarkLine hr), codeLines_map_dropReturn]

/-! ## 3. Matches -/

/-- Outputs match when their normal forms agree. -/
theorem isMatch_compareBy (read : Text → Option (List Script.Token)) (expected actual : Text)
    (mode : Mode) : (compareBy read expected actual mode).isMatch =
      agreeBy read mode (normalize expected) (normalize actual) := by
  unfold isMatch compareBy
  cases h : agreeBy read mode (normalize expected) (normalize actual) with
  | false => simp only [h, Bool.false_eq_true, if_false, Option.isNone_some]
  | true => simp only [h, if_true, Option.isNone_none]

theorem isMatch_compare (expected actual : Text) (mode : Mode) :
    (compare expected actual mode).isMatch = agree mode (normalize expected) (normalize actual) :=
  isMatch_compareBy Script.tokens? expected actual mode

theorem agree_exact (s t : Text) : agree .exact s t = true ↔ s = t := by simp [agree, agreeBy]

/-- In the exact mode outputs match when they have one normal form. -/
theorem isMatch_exact (expected actual : Text) :
    (compare expected actual .exact).isMatch = true ↔ normalize expected = normalize actual := by
  rw [isMatch_compare, agree_exact]

end Baselines.Comparison
