import Baselines.MarkedFile
import Baselines.Proofs.Text.Lines

/-!
# Lines of code

The code of a marked file, line by line: all lines but the markers, and one empty line for each
marker that no line of code follows.
-/

namespace Baselines.MarkedFile

open Text

/-! ## 1. Marker lines -/

def isMarker (line : Text) : Bool := (marker? line).isSome

/-- A marker line is an opening, a name without a closing bracket, that bracket, and blanks. -/
theorem marker?_eq_some {line file : Text} :
    marker? line = some file ↔ ∃ tail, line = opening ++ (file ++ ']' :: tail) ∧
      file ≠ [] ∧ ']' ∉ file ∧ tail.all isBlank = true := by
  unfold marker?
  constructor
  · intro h
    cases hl : dropLead? opening line with
    | none => simp [hl] at h
    | some rest =>
      cases hs : splitFirst? ']' rest with
      | none => simp [hl, hs] at h
      | some p =>
        obtain ⟨name, tail⟩ := p
        simp only [hl, hs, Option.bind_eq_bind, Option.bind_some] at h
        split at h
        · rename_i hc
          obtain rfl := Option.some.inj h
          obtain ⟨hr, hn⟩ := splitFirst?_eq_some hs
          refine ⟨tail, ?_, hc.1, hn, hc.2⟩
          rw [dropLead?_eq_some.1 hl, hr]
        · exact absurd h (by simp)
  · rintro ⟨tail, rfl, hne, hn, ht⟩
    simp only [dropLead?_eq_some.2 rfl, Option.bind_eq_bind, Option.bind_some,
      splitFirst?_append hn tail]
    rw [if_pos ⟨hne, ht⟩]

theorem isBlank_return : isBlank '\r' = true := by decide

theorem isBlank_lineFeed : isBlank '\n' = true := by decide

-- Blanks at its end make no line a marker, and keep a marker what it is.
theorem marker?_append_blank (line : Text) {w : Text} (hw : ∀ c ∈ w, isBlank c = true) :
    marker? (line ++ w) = marker? line := by
  have hb : ∀ {c : Char}, isBlank c = false → c ∉ w := fun hc hm => by
    rw [hw _ hm] at hc
    exact absurd hc (by decide)
  apply Option.ext
  intro file
  rw [marker?_eq_some, marker?_eq_some]
  constructor
  · rintro ⟨tail, he, hne, hn, ht⟩
    rw [← List.append_assoc] at he
    rcases List.append_eq_append_iff.1 he with ⟨k, h1, h2⟩ | ⟨k, h1, h2⟩
    · -- the closing bracket is not among the blanks
      exact absurd (by rw [h2]; simp) (hb (c := ']') (by decide))
    · cases k with
      | nil =>
        rw [List.nil_append] at h2
        exact absurd (by rw [← h2]; simp) (hb (c := ']') (by decide))
      | cons x k =>
        obtain ⟨rfl, htail⟩ := List.cons.inj h2
        refine ⟨k, by rw [h1, List.append_assoc], hne, hn, ?_⟩
        have htail : tail = k ++ w := htail
        rw [htail, List.all_append, Bool.and_eq_true] at ht
        exact ht.1
  · rintro ⟨tail, rfl, hne, hn, ht⟩
    refine ⟨tail ++ w, by simp, hne, hn, ?_⟩
    rw [List.all_append, ht, Bool.true_and, List.all_eq_true]
    exact hw

theorem marker?_dropReturn (line : Text) : marker? (dropReturn line) = marker? line := by
  rcases dropReturn_cases line with h | h
  · rw [← h]
  · conv_rhs => rw [h]
    exact (marker?_append_blank _ (by simp [isBlank_return])).symm

/-- A return at its end makes no difference to whether a line is a marker. -/
theorem isMarker_dropReturn (line : Text) : isMarker (dropReturn line) = isMarker line := by
  unfold isMarker
  rw [marker?_dropReturn]

/-- Blanks behind a line make no difference to whether it is a marker. -/
theorem isMarker_append_blank (line : Text) {w : Text} (hw : ∀ c ∈ w, isBlank c = true) :
    isMarker (line ++ w) = isMarker line := by
  unfold isMarker
  rw [marker?_append_blank line hw]

theorem isMarker_blank {w : Text} (hw : ∀ c ∈ w, isBlank c = true) : isMarker w = false := by
  have := isMarker_append_blank [] hw
  rwa [List.nil_append] at this

theorem isMarker_cons_ne {x : Char} (h : x ≠ '/') (r : Text) : isMarker (x :: r) = false := by
  unfold isMarker
  cases hm : marker? (x :: r) with
  | none => rfl
  | some file =>
    obtain ⟨tail, he, -⟩ := marker?_eq_some.1 hm
    exact absurd (List.cons.inj he).1 h

/-- The marker that is written for a file is read as its name. -/
theorem marker?_markerLine {file : Text} (hne : file ≠ []) (hn : ']' ∉ file) :
    marker? (markerLine file) = some file :=
  marker?_eq_some.2 ⟨[], by simp [markerLine], hne, hn, rfl⟩

/-! ## 2. Code without its markers -/

def codeLines (ls : List Text) : List Text :=
  (blocks ls).1 ++ (blocks ls).2.flatMap fun b => orEmpty b.2

/-- Whether no line of code stands before the first marker. -/
def leads (ls : List Text) : Bool := (blocks ls).1.isEmpty

theorem code_ofLines (ls : List Text) : (ofLines ls).code = unlines (codeLines ls) := by
  have hjoin : (ofLines ls).code =
      join ['\n'] (((if (blocks ls).1 = [] then [] else [(blocks ls).1]) ++
        (blocks ls).2.map (·.2)).map (join ['\n'])) := by
    unfold ofLines code unlines
    by_cases h : (blocks ls).1 = [] <;> simp [h, Function.comp_def]
  rw [hjoin, join_map_join, List.flatMap_append, List.flatMap_map]
  unfold unlines codeLines
  congr 2
  split
  · rename_i h
    rw [h]
    rfl
  · rename_i h
    rw [List.flatMap_singleton, orEmpty, if_neg h]

/-- The code of a text is joined from its code lines. -/
theorem code_parse (t : Text) : (parse t).code = unlines (codeLines (lines (dropMark t))) :=
  code_ofLines _

theorem codeLines_nil : codeLines [] = [] := rfl

theorem leads_nil : leads [] = true := rfl

theorem leads_cons (l : Text) (r : List Text) : leads (l :: r) = isMarker l := by
  unfold leads isMarker
  rw [blocks]
  cases marker? l <;> rfl

/-- A line that is no marker is a code line. -/
theorem codeLines_cons_code {l : Text} (h : isMarker l = false) (r : List Text) :
    codeLines (l :: r) = l :: codeLines r := by
  unfold isMarker at h
  cases hm : marker? l with
  | some file => simp [hm] at h
  | none => simp [codeLines, blocks, hm]

/-- A marker leaves an empty line behind where no line of code follows it. -/
theorem codeLines_cons_marker {l : Text} (h : isMarker l = true) (r : List Text) :
    codeLines (l :: r) = if leads r then [] :: codeLines r else codeLines r := by
  unfold isMarker at h
  cases hm : marker? l with
  | none => simp [hm] at h
  | some file =>
    unfold leads codeLines
    rw [blocks, hm]
    simp only [List.nil_append, List.flatMap_cons, orEmpty]
    by_cases hr : (blocks r).1 = [] <;> simp [hr]

/-- A code line is a line of the text that is no marker, or stands for a section without lines. -/
theorem mem_codeLines {l : Text} {ls : List Text} (h : l ∈ codeLines ls) :
    l = [] ∨ (l ∈ ls ∧ isMarker l = false) := by
  induction ls with
  | nil => exact absurd h List.not_mem_nil
  | cons x r ih =>
    have tail : l ∈ codeLines r → l = [] ∨ (l ∈ x :: r ∧ isMarker l = false) := fun hr =>
      (ih hr).imp_right fun hl => ⟨List.mem_cons_of_mem x hl.1, hl.2⟩
    cases hx : isMarker x with
    | true =>
      rw [codeLines_cons_marker hx] at h
      split at h
      · exact (List.mem_cons.1 h).elim Or.inl tail
      · exact tail h
    | false =>
      rw [codeLines_cons_code hx, List.mem_cons] at h
      rcases h with rfl | h
      · exact Or.inr ⟨List.mem_cons_self, hx⟩
      · exact tail h

/-- No line of code is lost. -/
theorem mem_codeLines_of_code {l : Text} {ls : List Text} (h : l ∈ ls) (hl : isMarker l = false) :
    l ∈ codeLines ls := by
  induction ls with
  | nil => exact absurd h List.not_mem_nil
  | cons x r ih =>
    cases hx : isMarker x with
    | false =>
      rw [codeLines_cons_code hx]
      rcases List.mem_cons.1 h with rfl | h
      · exact List.mem_cons_self
      · exact List.mem_cons_of_mem x (ih h)
    | true =>
      have hr : l ∈ r := by
        rcases List.mem_cons.1 h with rfl | h
        · rw [hx] at hl
          exact absurd hl (by decide)
        · exact h
      rw [codeLines_cons_marker hx]
      split
      · exact List.mem_cons_of_mem [] (ih hr)
      · exact ih hr

theorem isMarker_of_mem_codeLines {l : Text} {ls : List Text} (h : l ∈ codeLines ls) :
    isMarker l = false := by
  rcases mem_codeLines h with rfl | h
  · rfl
  · exact h.2

theorem not_mem_codeLines {l : Text} {ls : List Text} (hls : ∀ l ∈ ls, '\n' ∉ l)
    (h : l ∈ codeLines ls) : '\n' ∉ l := by
  rcases mem_codeLines h with rfl | h
  · exact List.not_mem_nil
  · exact hls l h.1

/-- Without markers all lines are code lines. -/
theorem codeLines_eq_self {ls : List Text} (h : ∀ l ∈ ls, isMarker l = false) :
    codeLines ls = ls := by
  induction ls with
  | nil => rfl
  | cons x r ih =>
    rw [codeLines_cons_code (h x List.mem_cons_self),
      ih fun l hl => h l (List.mem_cons_of_mem x hl)]

/-- What stands before a line counts alike whatever code follows: only whether the line is a marker
matters to it. -/
theorem exists_codeLines_append (ls : List Text) (m : Bool) :
    ∃ front, ∀ l, isMarker l = m → ∀ r, codeLines (ls ++ l :: r) = front ++ codeLines (l :: r) := by
  induction ls with
  | nil => exact ⟨[], fun l _ r => rfl⟩
  | cons x s ih =>
    obtain ⟨front, ih⟩ := ih
    cases hx : isMarker x with
    | false =>
      refine ⟨x :: front, fun l hl r => ?_⟩
      rw [List.cons_append, codeLines_cons_code hx, ih l hl]
      rfl
    | true =>
      -- the line matters to a marker right before it, which is empty if another marker follows
      have hlead : ∀ l, isMarker l = m → ∀ r : List Text,
          leads (s ++ l :: r) = if s = [] then m else leads s := by
        intro l hl r
        cases s with
        | nil => rw [List.nil_append, leads_cons, hl, if_pos rfl]
        | cons y s => rw [List.cons_append, leads_cons, leads_cons, if_neg (List.cons_ne_nil y s)]
      refine ⟨(if (if s = [] then m else leads s) then [[]] else []) ++ front, fun l hl r => ?_⟩
      rw [List.cons_append, codeLines_cons_marker hx, hlead l hl, ih l hl]
      cases (if s = [] then m else leads s) <;> rfl

theorem dropEmptyEnd_codeLines_append_empty (ls : List Text) :
    dropEmptyEnd (codeLines (ls ++ [[]])) = dropEmptyEnd (codeLines ls) := by
  -- only the last line is looked at: what stands before it counts alike on both sides
  induction ls using List.reverseRecOn with
  | nil => rfl
  | append_singleton r l _ =>
    obtain ⟨front, hf⟩ := exists_codeLines_append r (isMarker l)
    rw [List.append_assoc, List.singleton_append, hf l rfl, hf l rfl]
    cases hl : isMarker l with
    | true =>
      rw [codeLines_cons_marker hl, codeLines_cons_marker hl, leads_cons]
      rfl
    | false =>
      rw [codeLines_cons_code hl, codeLines_cons_code hl]
      exact (congrArg dropEmptyEnd (List.append_assoc front [l] [[]]).symm).trans
        (dropEmptyEnd_append_empty _)

/-- Lines of code are read as code again. -/
theorem codeLines_codeLines (ls : List Text) : codeLines (codeLines ls) = codeLines ls :=
  codeLines_eq_self fun _ h => isMarker_of_mem_codeLines h

/-- Where there are lines there are code lines. -/
theorem codeLines_ne_nil {ls : List Text} (h : ls ≠ []) : codeLines ls ≠ [] := by
  induction ls with
  | nil => exact absurd rfl h
  | cons l r ih =>
    cases hl : isMarker l with
    | false =>
      rw [codeLines_cons_code hl]
      exact List.cons_ne_nil _ _
    | true =>
      rw [codeLines_cons_marker hl]
      by_cases hr : r = []
      · rw [hr, leads_nil, if_pos rfl]
        exact List.cons_ne_nil _ _
      · split
        · exact List.cons_ne_nil _ _
        · exact ih hr

theorem leads_codeLines {ls : List Text} (h : ls ≠ []) : leads (codeLines ls) = false := by
  cases hc : codeLines ls with
  | nil => exact absurd hc (codeLines_ne_nil h)
  | cons l r =>
    have hl : l ∈ codeLines ls := by
      rw [hc]
      exact List.mem_cons_self
    rw [leads_cons]
    exact isMarker_of_mem_codeLines hl

/-! ## 3. Markers at the top -/

/-- The number of markers before the first line of code. -/
def topMarkers (ls : List Text) : Nat := (ls.takeWhile isMarker).length

theorem topMarkers_nil : topMarkers [] = 0 := rfl

theorem topMarkers_cons_code {l : Text} (h : isMarker l = false) (r : List Text) :
    topMarkers (l :: r) = 0 := by
  unfold topMarkers
  rw [List.takeWhile_cons_of_neg (by simp [h]), List.length_nil]

theorem topMarkers_cons_marker {l : Text} (h : isMarker l = true) (r : List Text) :
    topMarkers (l :: r) = topMarkers r + 1 := by
  unfold topMarkers
  rw [List.takeWhile_cons_of_pos h, List.length_cons]

/-- Only where the first line of code stands matters, not what it says nor what comes after it. -/
theorem topMarkers_append (front : List Text) {a b : List Text} (h : topMarkers a = topMarkers b) :
    topMarkers (front ++ a) = topMarkers (front ++ b) := by
  induction front with
  | nil => exact h
  | cons l r ih =>
    cases hl : isMarker l with
    | false => rw [List.cons_append, List.cons_append, topMarkers_cons_code hl, topMarkers_cons_code hl]
    | true =>
      rw [List.cons_append, List.cons_append, topMarkers_cons_marker hl, topMarkers_cons_marker hl, ih]

theorem topMarkers_of_code {ls : List Text} (h : ∀ l ∈ ls, isMarker l = false) :
    topMarkers ls = 0 := by
  cases ls with
  | nil => rfl
  | cons l r => exact topMarkers_cons_code (h l List.mem_cons_self) r

theorem topMarkers_lines (t : Text) : topMarkers (lines t) = topMarkers (rows t) := by
  rcases rows_eq_lines t with h | h
  · rw [h]
  · rw [h]
    conv_lhs => rw [← List.append_nil (lines t)]
    exact topMarkers_append (lines t) rfl

end Baselines.MarkedFile
