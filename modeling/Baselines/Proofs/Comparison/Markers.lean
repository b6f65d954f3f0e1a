import Baselines.Proofs.Comparison.NormalForm

/-!
# Markers in compared outputs

What marker lines leave behind in a normal form. A marker that a line of code follows leaves nothing;
one that another marker follows leaves an empty line, which is seen if any line of code comes later.
-/

namespace Baselines.Comparison

open Text MarkedFile

/-! ## 1. Lines without markers -/

def withoutMarkers (ls : List Text) : List Text := ls.filter fun l => !isMarker l

/-- The lines of an output that are no markers, without the empty ones at the end. -/
def plainLines (t : Text) : List Text := dropEmptyEnd (withoutMarkers (lines (dropMark t)))

/-- Whether nothing but empty lines and markers comes after two markers in a row. -/
def Spaced (ls : List Text) : Prop :=
  ∀ front m m' rest, ls = front ++ m :: m' :: rest → isMarker m = true → isMarker m' = true →
    ∀ l ∈ rest, isMarker l = false → l = []

theorem withoutMarkers_cons_code {l : Text} (h : isMarker l = false) (r : List Text) :
    withoutMarkers (l :: r) = l :: withoutMarkers r := by simp [withoutMarkers, h]

theorem withoutMarkers_cons_marker {l : Text} (h : isMarker l = true) (r : List Text) :
    withoutMarkers (l :: r) = withoutMarkers r := by simp [withoutMarkers, h]

theorem dropEmptyEnd_withoutMarkers_eq_nil {ls : List Text} :
    dropEmptyEnd (withoutMarkers ls) = [] ↔ ∀ l ∈ ls, isMarker l = false → l = [] := by
  rw [dropEmptyEnd_eq_nil]
  simp [withoutMarkers]

/-- The lines of code are all empty as soon as the lines that are no markers are. -/
theorem dropEmptyEnd_codeLines_eq_nil {ls : List Text} :
    dropEmptyEnd (codeLines ls) = [] ↔ dropEmptyEnd (withoutMarkers ls) = [] := by
  rw [dropEmptyEnd_withoutMarkers_eq_nil, dropEmptyEnd_eq_nil]
  constructor
  · exact fun h l hl hc => h l (mem_codeLines_of_code hl hc)
  · intro h l hl
    rcases mem_codeLines hl with rfl | ⟨hl, hc⟩
    · rfl
    · exact h l hl hc

/-! ## 2. Markers in a row -/

theorem spaced_nil : Spaced [] := by
  intro front m m' rest h
  exact absurd h (by simp)

-- A line that is no marker parts what stands before it from what comes after it.
theorem spaced_cons_code {l : Text} (hl : isMarker l = false) {r : List Text} :
    Spaced (l :: r) ↔ Spaced r := by
  constructor
  · intro h front m m' rest he
    exact h (l :: front) m m' rest (by rw [he]; rfl)
  · intro h front m m' rest he hm
    cases front with
    | nil =>
      obtain ⟨rfl, -⟩ := List.cons.inj he
      rw [hl] at hm
      exact absurd hm (by decide)
    | cons x front => exact h front m m' rest (List.cons.inj he).2 hm

theorem spaced_cons_marker {l : Text} (hl : isMarker l = true) {r : List Text} :
    Spaced (l :: r) ↔ Spaced r ∧
      (r = [] ∨ leads r = false ∨ ∀ x ∈ r, isMarker x = false → x = []) := by
  constructor
  · intro h
    refine ⟨fun front m m' rest he => h (l :: front) m m' rest (by rw [he]; rfl), ?_⟩
    cases r with
    | nil => exact Or.inl rfl
    | cons m rest =>
      rw [leads_cons]
      cases hm : isMarker m with
      | false => exact Or.inr (Or.inl rfl)
      | true =>
        refine Or.inr (Or.inr fun x hx hc => ?_)
        rcases List.mem_cons.1 hx with rfl | hx
        · rw [hm] at hc
          exact absurd hc (by decide)
        · exact h [] l m rest rfl hl hm x hx hc
  · rintro ⟨h, hr⟩ front m m' rest he hm hm'
    cases front with
    | cons x front => exact h front m m' rest (List.cons.inj he).2 hm hm'
    | nil =>
      obtain ⟨-, rfl⟩ := List.cons.inj he
      rcases hr with hr | hr | hr
      · exact absurd hr (by simp)
      · rw [leads_cons, hm'] at hr
        exact absurd hr (by decide)
      · exact fun x hx => hr x (List.mem_cons_of_mem m' hx)

/-! ## 3. What markers leave behind -/

/-- No line is lost to the markers, and the order is kept. -/
theorem sublist_dropEmptyEnd_codeLines (ls : List Text) :
    (dropEmptyEnd (withoutMarkers ls)).Sublist (dropEmptyEnd (codeLines ls)) := by
  induction ls with
  | nil => exact List.Sublist.refl _
  | cons l r ih =>
    cases hl : isMarker l with
    | false =>
      rw [withoutMarkers_cons_code hl, codeLines_cons_code hl, dropEmptyEnd_cons, dropEmptyEnd_cons]
      by_cases h : l = [] ∧ dropEmptyEnd (withoutMarkers r) = []
      · rw [if_pos h]
        exact List.nil_sublist _
      · rw [if_neg h, if_neg fun hc => h ⟨hc.1, dropEmptyEnd_codeLines_eq_nil.1 hc.2⟩]
        exact ih.cons_cons l
    | true =>
      rw [withoutMarkers_cons_marker hl, codeLines_cons_marker hl]
      split
      · rw [dropEmptyEnd_cons]
        split
        · rename_i h
          rw [dropEmptyEnd_codeLines_eq_nil.1 h.2]
        · exact ih.cons []
      · exact ih

/-- The markers leave nothing behind exactly where lines are spaced. -/
theorem dropEmptyEnd_codeLines_eq_iff {ls : List Text} :
    dropEmptyEnd (codeLines ls) = dropEmptyEnd (withoutMarkers ls) ↔ Spaced ls := by
  induction ls with
  | nil => exact iff_of_true rfl spaced_nil
  | cons l r ih =>
    cases hl : isMarker l with
    | false =>
      rw [spaced_cons_code hl, ← ih, withoutMarkers_cons_code hl, codeLines_cons_code hl,
        dropEmptyEnd_cons, dropEmptyEnd_cons]
      by_cases h : l = [] ∧ dropEmptyEnd (withoutMarkers r) = []
      · have hc := dropEmptyEnd_codeLines_eq_nil.2 h.2
        rw [if_pos h, if_pos ⟨h.1, hc⟩, hc, h.2]
      · rw [if_neg h, if_neg fun hc => h ⟨hc.1, dropEmptyEnd_codeLines_eq_nil.1 hc.2⟩,
          List.cons_inj_right]
    | true =>
      rw [spaced_cons_marker hl, ← ih, withoutMarkers_cons_marker hl, codeLines_cons_marker hl,
        ← dropEmptyEnd_withoutMarkers_eq_nil, ← dropEmptyEnd_codeLines_eq_nil]
      by_cases hr : leads r = true
      · rw [if_pos hr, dropEmptyEnd_cons]
        by_cases hn : dropEmptyEnd (codeLines r) = []
        · have hp := dropEmptyEnd_codeLines_eq_nil.1 hn
          rw [if_pos ⟨rfl, hn⟩, hn, hp]
          simp
        · -- the empty line makes the lines of code more than the lines that are no markers
          rw [if_neg fun h => hn h.2]
          refine iff_of_false (fun he => ?_) ?_
          · have hlen := (sublist_dropEmptyEnd_codeLines r).length_le
            rw [← he, List.length_cons] at hlen
            omega
          · rintro ⟨-, rfl | hf | he⟩
            · exact hn rfl
            · rw [hr] at hf
              exact absurd hf (by decide)
            · exact hn he
      · rw [if_neg hr]
        have hf : leads r = false := by simpa using hr
        simp [hf]

/-! ## 4. Normal forms and plain lines -/

theorem normalLines_eq_plainLines_iff {t : Text} :
    normalLines t = plainLines t ↔ Spaced (lines (dropMark t)) := by
  rw [normalLines_eq, plainLines, dropEmptyEnd_codeLines_eq_iff]

theorem not_mem_plainLines {t l : Text} (h : l ∈ plainLines t) : '\n' ∉ l :=
  not_mem_lines (List.mem_of_mem_filter (mem_of_mem_dropEmptyEnd h))

/-- The normal form of an output is its lines without markers exactly when no line of code comes
after two markers in a row; and two such outputs match in the exact mode exactly when those lines
are the same. -/
theorem normalize_eq_plainLines_iff (t : Text) :
    (normalize t = unlines (plainLines t) ↔ Spaced (lines (dropMark t))) ∧
      ∀ s, Spaced (lines (dropMark s)) → Spaced (lines (dropMark t)) →
        ((compare s t .exact).isMatch = true ↔ plainLines s = plainLines t) := by
  constructor
  · rw [← normalLines_eq_plainLines_iff, normalize_eq]
    refine ⟨fun h => ?_, fun h => by rw [h]⟩
    exact unlines_injective (fun _ => not_mem_normalLines) (fun _ => not_mem_plainLines)
      (getLast?_dropEmptyEnd _) (getLast?_dropEmptyEnd _) h
  · intro s hs ht
    rw [isMatch_exact, normalize_eq_iff, normalLines_eq_plainLines_iff.2 hs,
      normalLines_eq_plainLines_iff.2 ht]

/-! ## 5. Markers in a row -/

-- A marker between two lines of code, and two in a row at the end.
def spacedOutput : Text := "x\n//// [a]\ny\n\n//// [b]\n//// [c]\n"

theorem normalize_eq_plainLines_iff_spaced :
    normalize spacedOutput = unlines (plainLines spacedOutput) ∧
      plainLines "x\ny" = plainLines spacedOutput ∧
        (compare "x\ny" spacedOutput .exact).isMatch = true := by
  have hs : Spaced (lines (dropMark spacedOutput)) := dropEmptyEnd_codeLines_eq_iff.1 (by decide)
  have ht : Spaced (lines (dropMark "x\ny")) := dropEmptyEnd_codeLines_eq_iff.1 (by decide)
  have hp : plainLines "x\ny" = plainLines spacedOutput := by decide
  obtain ⟨hn, hm⟩ := normalize_eq_plainLines_iff spacedOutput
  exact ⟨hn.2 hs, hp, (hm _ ht hs).2 hp⟩

-- Two markers in a row before a line of code.
def crowdedOutput : Text := "//// [a]\n//// [b]\nx"

/-- Two markers in a row leave an empty line behind, which counts in the exact mode. -/
theorem normalize_crowded : plainLines crowdedOutput = ["x".toList] ∧
    normalize crowdedOutput = "\nx".toList ∧ normalize crowdedOutput ≠ unlines (plainLines crowdedOutput) ∧
      plainLines "x" = plainLines crowdedOutput ∧
        (compare "x" crowdedOutput .exact).isMatch = false := by
  decide +kernel

end Baselines.Comparison
