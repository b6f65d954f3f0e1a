import Baselines.Proofs.Comparison.Rereading
import Baselines.Proofs.MarkedFile.Rendering

/-!
# Outputs that are kept

An update and an authoring write an output into a baseline without the characters at its end that
they take for blanks. What the baseline then expects is the output, up to its normal form, under
conditions that can be read off the output.
-/

namespace Baselines.Comparison

open Text MarkedFile

/-! ## 1. Outputs without their ends -/

/-- Characters that are cut off at the end of an output: blanks, with all that ends a line. -/
structure EndBlanks (q : Char → Bool) : Prop where
  blank : ∀ c, q c = true → isBlank c = true
  lineFeed : q '\n' = true
  carriageReturn : q '\r' = true

theorem endBlanks_lineEnds : EndBlanks fun c => c == '\n' || c == '\r' where
  blank := by
    intro c h
    simp only [Bool.or_eq_true, beq_iff_eq] at h
    rcases h with rfl | rfl
    · exact isBlank_lineFeed
    · exact isBlank_return
  lineFeed := by decide
  carriageReturn := by decide

theorem endBlanks_isBlank : EndBlanks isBlank where
  blank := fun _ h => h
  lineFeed := isBlank_lineFeed
  carriageReturn := isBlank_return

variable {q : Char → Bool} (hq : EndBlanks q)

include hq

theorem EndBlanks.mark : q '\uFEFF' = false := by
  cases h : q '\uFEFF' with
  | false => rfl
  | true => exact absurd (hq.blank _ h) (by decide)

theorem EndBlanks.not_endsInReturn (o : Text) : endsInReturn (dropEndWhile q o) = false := by
  by_contra hn
  have hl : (dropEndWhile q o).getLast? = some '\r' := by simpa [endsInReturn] using hn
  have := getLast?_dropEndWhile hl
  rw [hq.carriageReturn] at this
  exact absurd this (by decide)

-- The rows of what is kept of an output, and of the whole output.
theorem EndBlanks.exists_rows (o : Text) : ∃ front l v more,
    rows (dropMark (dropEndWhile q o)) = front ++ [l] ∧
      rows (dropMark o) = front ++ (l ++ v) :: more ∧
      (∀ c ∈ v, q c = true) ∧ ∀ u ∈ more, ∀ c ∈ u, q c = true := by
  obtain ⟨w, ho, hw⟩ := exists_dropEndWhile q (dropMark o)
  rw [← dropMark_dropEndWhile hq.mark] at ho
  have hr : endsInReturn (dropMark (dropEndWhile q o)) = false := by
    rw [dropMark_dropEndWhile hq.mark]
    exact hq.not_endsInReturn (dropMark o)
  obtain ⟨front, l, v, more, hc, hcw, hv, hm⟩ := exists_rows_append (w := w) hr
  rw [← ho] at hcw
  exact ⟨front, l, v, more, hc, hcw, fun c h => hw c (hv c h), fun u hu c h => hw c (hm u hu c h)⟩

theorem EndBlanks.topMarkers_cut (o : Text) :
    topMarkers (rows (dropMark (dropEndWhile q o))) = topMarkers (lines (dropMark o)) := by
  obtain ⟨front, l, v, more, hc, ho, hv, hm⟩ := hq.exists_rows o
  rw [topMarkers_lines, hc, ho]
  exact Comparison.topMarkers_cut (fun c h => hq.blank c (hv c h)) fun u hu c h => hq.blank c (hm u hu c h)

-- Cutting off the end changes the normal form only by losing characters.
theorem EndBlanks.normalLines_cut (o : Text) :
    normalLines (dropEndWhile q o) = normalLines o ∨
      weight (codeLines (rows (dropMark (dropEndWhile q o)))) <
        weight (codeLines (rows (dropMark o))) := by
  obtain ⟨front, l, v, more, hc, ho, hv, hm⟩ := hq.exists_rows o
  unfold normalLines
  rw [hc, ho]
  rcases dropEmptyEnd_cut front l (fun c h => hq.blank c (hv c h))
    (fun u hu c h => hq.blank c (hm u hu c h)) with ⟨-, -, h⟩ | ⟨-, h⟩
  · exact Or.inl h
  · exact Or.inr h

omit hq

/-! ## 2. What is read back -/

theorem endsInReturn_of_rows {t l : Text} (ht : endsInReturn t = false)
    (h : (rows t).getLast? = some l) : endsInReturn l = false := by
  obtain ⟨front, hf⟩ := List.getLast?_eq_some_iff.1 h
  rcases last_row hf with ⟨-, rfl⟩ | ⟨s, rfl⟩
  · exact ht
  · by_cases hl : l = []
    · rw [hl]
      rfl
    · unfold endsInReturn at ht ⊢
      rwa [List.getLast?_append_of_ne_nil _ (List.cons_ne_nil _ _), List.getLast?_cons,
        List.getLast?_eq_some_getLast hl, Option.getD_some,
        ← List.getLast?_eq_some_getLast hl] at ht

theorem endsInReturn_getLast?_codeLines {ls : List Text}
    (h : ∀ l, ls.getLast? = some l → endsInReturn l = false) :
    ∀ l, (codeLines ls).getLast? = some l → endsInReturn l = false := by
  induction ls using List.reverseRecOn with
  | nil => exact h
  | append_singleton r x _ =>
    have hx : endsInReturn x = false := h x (by simp)
    obtain ⟨front, hf⟩ := exists_codeLines_append r (isMarker x)
    intro l hl
    rw [hf x rfl] at hl
    cases hm : isMarker x with
    | true =>
      rw [codeLines_cons_marker hm, leads_nil, if_pos rfl, codeLines_nil,
        List.getLast?_concat, Option.some.injEq] at hl
      rw [← hl]
      rfl
    | false =>
      rw [codeLines_cons_code hm, codeLines_nil, List.getLast?_concat, Option.some.injEq] at hl
      rwa [← hl]

include hq

-- The lines `xs` are read back and lose returns at their ends. `P` is the condition under which they
-- have the normal form of what was written.
theorem EndBlanks.normalize_iff {t o : Text} {xs : List Text} {P : List Text → Prop}
    (hback : normalLines t = dropEmptyEnd (xs.map dropReturn))
    (hw : weight xs ≤ weight (codeLines (rows (dropMark (dropEndWhile q o)))))
    (hiff : dropEmptyEnd xs = normalLines (dropEndWhile q o) ↔
      P (normalLines (dropEndWhile q o))) :
    normalize t = normalize o ↔ (∀ l ∈ normalLines o, endsInReturn l = false) ∧
      normalLines (dropEndWhile q o) = normalLines o ∧ P (normalLines o) := by
  rw [normalize_eq_iff, hback]
  have hcut := hq.normalLines_cut o
  unfold normalLines at hcut hiff ⊢
  rw [dropEmptyEnd_map_dropReturn_iff hw hcut, hiff]
  constructor
  · rintro ⟨h1, h2, h3⟩
    rw [h2] at h3
    exact ⟨h1, h2, h3⟩
  · rintro ⟨h1, h2, h3⟩
    rw [h2]
    exact ⟨h1, rfl, h3⟩

-- The normal form of an output that was written below a marker.
theorem EndBlanks.normalize_single {file : Text} (hf : Markable file) (o : Text) :
    normalize (parse (single file (dropEndWhile q o)).render).code = normalize o ↔
      (∀ l ∈ normalLines o, endsInReturn l = false) ∧
        normalLines (dropEndWhile q o) = normalLines o ∧
        (normalize o = [] ∨
          topMarkers (lines (dropMark o)) ≤ if hasMark o = true then 1 else 0) := by
  have hm := isMarker_markerLine hf
  obtain ⟨l, r, hlr⟩ := List.exists_cons_of_ne_nil (rows_ne_nil (dropEndWhile q o))
  have hmark : hasMark l = hasMark o := by
    rw [hasMark_row hlr, hasMark_dropEndWhile hq.mark]
  have hys : dropMarkLine (l :: r) = rows (dropMark (dropEndWhile q o)) := by
    rw [rows_dropMark, hlr]
  obtain ⟨hw, htop⟩ := dropEmptyEnd_below_marker hm l r
  rw [hys, hq.topMarkers_cut, hmark] at htop
  rw [hys] at hw
  have hback : normalLines (parse (single file (dropEndWhile q o)).render).code =
      dropEmptyEnd ((codeLines (dropMarkLine (codeLines (markerLine file :: l :: r)))).map
        dropReturn) := by
    rw [code_parse_single hf (hq.not_endsInReturn o), hlr]
    apply normalLines_unlines (codeLines_ne_nil (List.cons_ne_nil _ _))
    · intro x hx
      apply not_mem_codeLines _ hx
      intro y hy
      rcases List.mem_cons.1 hy with rfl | hy
      · exact not_mem_markerLine hf
      · exact not_mem_rows (by rw [hlr]; exact hy)
    · apply endsInReturn_getLast?_codeLines
      intro x hx
      rw [List.getLast?_cons_cons, ← hlr] at hx
      exact endsInReturn_of_rows (hq.not_endsInReturn o) hx
  rw [normalize_eq_nil]
  exact hq.normalize_iff (P := fun ls => ls = [] ∨
    topMarkers (lines (dropMark o)) ≤ if hasMark o = true then 1 else 0) hback hw htop

-- The normal form of an output that was written without a marker.
theorem EndBlanks.normalize_unnamed (o : Text) :
    normalize (parse (dropMark (render ⟨[{ file := none, body := dropEndWhile q o }]⟩))).code =
        normalize o ↔
      (∀ l ∈ normalLines o, endsInReturn l = false) ∧
        normalLines (dropEndWhile q o) = normalLines o ∧
        hasMark (normalize o) = false := by
  obtain ⟨l, r, hlr⟩ := List.exists_cons_of_ne_nil (rows_ne_nil (dropMark (dropEndWhile q o)))
  obtain ⟨hw, hiff⟩ := dropEmptyEnd_without_marker l r
  have hdd : rows (dropMark (dropMark (dropEndWhile q o))) = dropMarkLine (l :: r) := by
    rw [rows_dropMark, hlr]
  have hend : endsInReturn (dropMark (dropMark (dropEndWhile q o))) = false := by
    rw [dropMark_dropEndWhile hq.mark, dropMark_dropEndWhile hq.mark]
    exact hq.not_endsInReturn _
  have hback : normalLines
      (parse (dropMark (render ⟨[{ file := none, body := dropEndWhile q o }]⟩))).code =
        dropEmptyEnd ((codeLines (dropMarkLine (codeLines (dropMarkLine (l :: r))))).map
          dropReturn) := by
    rw [code_parse_unnamed (hq.not_endsInReturn o), ← hdd]
    apply normalLines_unlines (codeLines_ne_nil (rows_ne_nil _))
    · intro x hx
      exact not_mem_codeLines (fun y hy => not_mem_rows hy) hx
    · apply endsInReturn_getLast?_codeLines
      intro x hx
      exact endsInReturn_of_rows hend hx
  rw [← hlr] at hw hiff hback
  have hkept := hq.normalize_iff (P := fun ls => hasMark (unlines ls) = false) hback hw hiff
  rwa [← normalize_eq o] at hkept

omit hq

/-! ## 3. Outputs that an update keeps -/

/-- The outputs that a baseline expects after it was updated with them. The baseline names a source
or it does not. -/
structure KeptByUpdate (named : Bool) (o : Text) : Prop where
  /-- A return is kept before the end of a line, and then read as a part of that end. -/
  returns : ∀ l ∈ splitOn '\n' (normalize o), endsInReturn l = false
  /-- Markers at the top leave one empty line more below the marker of the baseline. -/
  markers : named = true →
    normalize o = [] ∨ topMarkers (lines (dropMark o)) ≤ if hasMark o = true then 1 else 0
  /-- A mark at the top of the file is no part of it. -/
  marks : named = false → hasMark (normalize o) = false

instance (named : Bool) (o : Text) : Decidable (KeptByUpdate named o) :=
  decidable_of_iff
    ((∀ l ∈ splitOn '\n' (normalize o), endsInReturn l = false) ∧
      (named = true →
        normalize o = [] ∨ topMarkers (lines (dropMark o)) ≤ if hasMark o = true then 1 else 0) ∧
      (named = false → hasMark (normalize o) = false))
    ⟨fun h => ⟨h.1, h.2.1, h.2.2⟩, fun h => ⟨h.returns, h.markers, h.marks⟩⟩

-- Where no line of the normal form ends in a return, cutting off line ends keeps the normal form.
theorem normalLines_dropLineEnds {o : Text} (h : ∀ l ∈ normalLines o, endsInReturn l = false) :
    normalLines (dropLineEnds o) = normalLines o := by
  obtain ⟨front, l, v, more, hc, ho, hv, hm⟩ := endBlanks_lineEnds.exists_rows o
  have hv' : ∀ c ∈ v, isBlank c = true := fun c hc => endBlanks_lineEnds.blank c (hv c hc)
  have hm' : ∀ u ∈ more, ∀ c ∈ u, isBlank c = true := fun u hu c hc =>
    endBlanks_lineEnds.blank c (hm u hu c hc)
  -- a row of code that ends in a character that is cut off ends in a return
  have hcode : ∀ x ∈ rows (dropMark o), isMarker x = false →
      ∀ c, x.getLast? = some c → ¬ (c == '\n' || c == '\r') = true := by
    intro x hx hmx c hl hend
    have hn : c ≠ '\n' := fun he => not_mem_rows hx (he ▸ List.mem_of_getLast? hl)
    have hr : c = '\r' := by simpa [hn] using hend
    have hne : x ≠ [] := by
      intro he
      simp [he] at hl
    have := h x (mem_dropEmptyEnd (mem_codeLines_of_code hx hmx) hne)
    simp [endsInReturn, hl, hr] at this
  rw [ho] at hcode
  have hmarker : isMarker l = true ∨ v = [] := by
    by_contra hn
    rw [not_or, Bool.not_eq_true] at hn
    obtain ⟨hl, hve⟩ := hn
    apply hcode (l ++ v) (by simp) ((isMarker_append_blank l hv').trans hl) (v.getLast hve)
    · rw [List.getLast?_append_of_ne_nil l hve, List.getLast?_eq_some_getLast hve]
    · exact hv _ (List.getLast_mem hve)
  have hempty : ∀ u ∈ more, u = [] := by
    intro u hu
    by_contra hne
    apply hcode u (by simp [hu]) (isMarker_blank (hm' u hu)) (u.getLast hne)
    · rw [List.getLast?_eq_some_getLast hne]
    · exact hm u hu _ (List.getLast_mem hne)
  unfold normalLines
  show dropEmptyEnd (codeLines (rows (dropMark (dropEndWhile _ o)))) = _
  rw [hc, ho]
  rcases dropEmptyEnd_cut front l hv' hm' with ⟨-, -, he⟩ | ⟨hn, -⟩
  · exact he
  · rcases hn with hn | hn
    · exact absurd hmarker hn
    · exact absurd hempty hn

theorem forall_endsInReturn (o : Text) :
    (∀ l ∈ splitOn '\n' (normalize o), endsInReturn l = false) ↔
      ∀ l ∈ normalLines o, endsInReturn l = false :=
  forall_splitOn_normalize (p := fun l => endsInReturn l = false) rfl o

/-- A baseline that is updated with an output expects the output exactly when it keeps it. -/
theorem normalize_withCode (baseline o : Text) :
    normalize (parse (dropMark ((parse baseline).withCode o).render)).code = normalize o ↔
      KeptByUpdate (parse baseline).primary?.isSome o := by
  have hcut := normalLines_dropLineEnds (o := o)
  unfold dropLineEnds at hcut
  unfold withCode dropLineEnds
  cases hp : (parse baseline).primary? with
  | some file =>
    have hf := markable_of_primary? hp
    have hs : (⟨[{ file := some file, body := dropEndWhile (fun c => c == '\n' || c == '\r') o }]⟩ :
        MarkedFile) = single file (dropEndWhile (fun c => c == '\n' || c == '\r') o) := rfl
    rw [hs, dropMark_render_single, endBlanks_lineEnds.normalize_single hf o]
    constructor
    · rintro ⟨h1, -, h3⟩
      exact ⟨(forall_endsInReturn o).2 h1, fun _ => h3, fun h => absurd h (by simp)⟩
    · intro h
      have h1 := (forall_endsInReturn o).1 h.returns
      exact ⟨h1, hcut h1, h.markers rfl⟩
  | none =>
    rw [endBlanks_lineEnds.normalize_unnamed o]
    constructor
    · rintro ⟨h1, -, h3⟩
      exact ⟨(forall_endsInReturn o).2 h1, fun h => absurd h (by simp), fun _ => h3⟩
    · intro h
      have h1 := (forall_endsInReturn o).1 h.returns
      exact ⟨h1, hcut h1, h.marks rfl⟩

/-! ## 4. Outputs that an authoring keeps -/

/-- The last line that is not empty. -/
def lastLine? (t : Text) : Option Text := ((lines t).filter (· ≠ [])).getLast?

theorem lastLine?_eq (t : Text) : lastLine? t = ((rows t).filter (· ≠ [])).getLast? := by
  unfold lastLine?
  rcases rows_eq_lines t with h | h
  · rw [h]
  · rw [h, List.filter_append]
    simp

/-- Whether a line is a marker, or has no blanks at its end. -/
def endsPlainly (l : Text) : Prop := isMarker l = true ∨ ∀ c, l.getLast? = some c → isBlank c = false

theorem getLast?_filter_of_empty {front more : List Text} {x : Text} (hm : ∀ u ∈ more, u = [])
    (hx : x ≠ []) : ((front ++ x :: more).filter (· ≠ [])).getLast? = some x := by
  have hnone : more.filter (· ≠ []) = [] := by simpa using hm
  rw [List.filter_append, List.filter_cons_of_pos (by simp [hx]), hnone, List.getLast?_concat]

theorem getLast?_filter_of_not_empty (front : List Text) {more : List Text}
    (hm : ¬ ∀ u ∈ more, u = []) :
    ∃ x ∈ more, x ≠ [] ∧ ((front ++ more).filter (· ≠ [])).getLast? = some x := by
  have hne : more.filter (· ≠ []) ≠ [] := by simpa using hm
  obtain ⟨x, hx⟩ : ∃ x, (more.filter (· ≠ [])).getLast? = some x :=
    ⟨_, List.getLast?_eq_some_getLast hne⟩
  have hmem := List.mem_filter.1 (List.mem_of_getLast? hx)
  refine ⟨x, hmem.1, by simpa using hmem.2, ?_⟩
  rw [List.filter_append, List.getLast?_append_of_ne_nil _ hne, hx]

theorem not_endsPlainly {x : Text} (hm : isMarker x = false) (hne : x ≠ [])
    (hb : isBlank (x.getLast hne) = true) : ¬ endsPlainly x := by
  rintro (h | h)
  · rw [h] at hm
    exact absurd hm (by decide)
  · rw [h _ (List.getLast?_eq_some_getLast hne)] at hb
    exact absurd hb (by decide)

section TrimEnd

variable {o l v : Text} {front more : List Text}
  (hc : rows (dropMark (trimEnd o)) = front ++ [l])
  (ho : rows (dropMark o) = front ++ (l ++ v) :: more)

include hc

-- Where no blanks that count were cut off, the last line ends as what is left of the output does.
theorem endsPlainly_of_kept (hv : ∀ c ∈ v, isBlank c = true) (hm : ∀ u ∈ more, u = [])
    (hl : isMarker l = true ∨ v = []) {x : Text}
    (hx : ((front ++ (l ++ v) :: more).filter (· ≠ [])).getLast? = some x) : endsPlainly x := by
  have hplain : ∀ c, (dropMark (trimEnd o)).getLast? = some c → isBlank c = false := fun c h =>
    getLast?_dropEndWhile (getLast?_dropMark h)
  by_cases hlv : l ++ v = []
  · -- the last row is empty, and then there is no other
    obtain ⟨rfl, rfl⟩ := List.append_eq_nil_iff.1 hlv
    rcases last_row hc with ⟨rfl, -⟩ | ⟨s, hs⟩
    · have hnone : ([] :: more).filter (· ≠ []) = [] := by simpa using hm
      rw [List.nil_append, List.nil_append, hnone] at hx
      exact absurd hx (by simp)
    · have hlf := hplain '\n' (by rw [hs]; simp)
      rw [isBlank_lineFeed] at hlf
      exact absurd hlf (by decide)
  · rw [getLast?_filter_of_empty hm hlv, Option.some.injEq] at hx
    rw [← hx]
    rcases hl with hl | rfl
    · exact Or.inl ((isMarker_append_blank l hv).trans hl)
    · right
      rw [List.append_nil] at hlv ⊢
      intro c hlast
      apply hplain
      rcases last_row hc with ⟨-, hs⟩ | ⟨s, hs⟩
      · rw [hs, hlast]
      · rw [hs, List.getLast?_append_of_ne_nil _ (List.cons_ne_nil _ _), List.getLast?_cons, hlast]
        rfl

omit hc

-- Where blanks that count were cut off, the last line has some at its end.
theorem exists_not_endsPlainly (hv : ∀ c ∈ v, isBlank c = true)
    (hm : ∀ u ∈ more, ∀ c ∈ u, isBlank c = true)
    (hn : ¬ (isMarker l = true ∨ v = []) ∨ ¬ ∀ u ∈ more, u = []) :
    ∃ x, ((front ++ (l ++ v) :: more).filter (· ≠ [])).getLast? = some x ∧ ¬ endsPlainly x := by
  by_cases hempty : ∀ u ∈ more, u = []
  · have hcut : isMarker l = false ∧ v ≠ [] := by
      rcases hn with hn | hn
      · simpa [not_or] using hn
      · exact absurd hempty hn
    have hne : l ++ v ≠ [] := by simp [hcut.2]
    refine ⟨l ++ v, getLast?_filter_of_empty hempty hne, ?_⟩
    apply not_endsPlainly ((isMarker_append_blank l hv).trans hcut.1) hne
    apply hv
    rw [List.getLast_append_of_ne_nil hne hcut.2]
    exact List.getLast_mem hcut.2
  · obtain ⟨x, hx, hne, hlast⟩ := getLast?_filter_of_not_empty (front ++ [l ++ v]) hempty
    rw [List.append_assoc] at hlast
    refine ⟨x, hlast, not_endsPlainly (isMarker_blank (hm x hx)) hne ?_⟩
    exact hm x hx _ (List.getLast_mem hne)

end TrimEnd

-- Cutting off blanks keeps the normal form exactly when none stand at the end of the last line, or
-- that is a marker.
theorem normalLines_trimEnd (o : Text) : normalLines (trimEnd o) = normalLines o ↔
    ∀ l, lastLine? (dropMark o) = some l → endsPlainly l := by
  obtain ⟨front, l, v, more, hc, ho, hv, hm⟩ := endBlanks_isBlank.exists_rows o
  rw [lastLine?_eq, ho]
  unfold normalLines trimEnd
  rw [hc, ho]
  rcases dropEmptyEnd_cut front l hv hm with ⟨hl, hempty, he⟩ | ⟨hn, hw⟩
  · exact iff_of_true he fun x hx => endsPlainly_of_kept hc hv hempty hl hx
  · refine iff_of_false (dropEmptyEnd_ne_of_weight hw) fun hall => ?_
    obtain ⟨x, hx, hnot⟩ := exists_not_endsPlainly hv hm hn
    exact hnot (hall x hx)

/-- The outputs that a baseline expects that was authored with them. -/
structure KeptByAuthoring (o : Text) : Prop where
  returns : ∀ l ∈ splitOn '\n' (normalize o), endsInReturn l = false
  markers : normalize o = [] ∨ topMarkers (lines (dropMark o)) ≤ if hasMark o = true then 1 else 0
  /-- Blanks at the end of the last line are lost, and they count unless the line is a marker. -/
  blanks : ∀ l, lastLine? (dropMark o) = some l → endsPlainly l

/-- A baseline that is authored with an output expects the output exactly when it keeps it. -/
theorem normalize_authored {file : Text} (hf : Markable file) (o : Text) :
    normalize (parse (single file (trimEnd o)).render).code = normalize o ↔ KeptByAuthoring o := by
  have hs := endBlanks_isBlank.normalize_single hf o
  have hb := normalLines_trimEnd o
  unfold trimEnd at hb ⊢
  rw [hs, hb]
  constructor
  · rintro ⟨h1, h2, h3⟩
    exact ⟨(forall_endsInReturn o).2 h1, h3, h2⟩
  · intro h
    exact ⟨(forall_endsInReturn o).1 h.returns, h.blanks, h.markers⟩

end Baselines.Comparison
