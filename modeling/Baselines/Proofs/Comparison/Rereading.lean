import Baselines.Proofs.Comparison.NormalForm

/-!
# Outputs that are read back

An output is written as the code of a marked file, without certain characters at its end, and is read
back from there. The normal form of what is read back is that of the output under conditions on the
ends of its lines, on the markers at its top, and on the blanks at its end.
-/

namespace Baselines.Comparison

open Text MarkedFile

/-! ## 1. Weights -/

/-- The number of characters of lines. -/
def weight (ls : List Text) : Nat := ls.flatten.length

theorem weight_nil : weight [] = 0 := rfl

theorem weight_cons (l : Text) (r : List Text) : weight (l :: r) = l.length + weight r := by
  unfold weight
  rw [List.flatten_cons, List.length_append]

theorem weight_append (a b : List Text) : weight (a ++ b) = weight a + weight b := by
  unfold weight
  rw [List.flatten_append, List.length_append]

theorem weight_dropEmptyEnd (ls : List Text) : weight (dropEmptyEnd ls) = weight ls := by
  unfold weight
  rw [flatten_dropEmptyEnd]

theorem weight_eq_zero {ls : List Text} : weight ls = 0 ↔ ∀ l ∈ ls, l = [] := by
  unfold weight
  rw [List.length_eq_zero_iff, List.flatten_eq_nil_iff]

theorem weight_map_dropReturn_le (ls : List Text) : weight (ls.map dropReturn) ≤ weight ls := by
  induction ls with
  | nil => exact Nat.le_refl 0
  | cons l r ih =>
    rw [List.map_cons, weight_cons, weight_cons]
    have := length_dropReturn_le l
    omega

-- Lines lose nothing only if none of them ends in a return.
theorem endsInReturn_of_weight {ls : List Text} (h : weight (ls.map dropReturn) = weight ls) :
    ∀ l ∈ ls, endsInReturn l = false := by
  induction ls with
  | nil => simp
  | cons l r ih =>
    rw [List.map_cons, weight_cons, weight_cons] at h
    have hl := length_dropReturn_le l
    have hr := weight_map_dropReturn_le r
    intro x hx
    rw [List.mem_cons] at hx
    rcases hx with rfl | hx
    · rw [← dropReturn_eq_self]
      rcases dropReturn_cases x with he | he
      · exact he.symm
      · have := congrArg List.length he
        rw [List.length_append, List.length_singleton] at this
        omega
    · exact ih (by omega) x hx

theorem weight_codeLines_cons_le (l : Text) (r : List Text) :
    weight (codeLines (l :: r)) ≤ l.length + weight (codeLines r) := by
  cases hl : isMarker l with
  | false => rw [codeLines_cons_code hl, weight_cons]
  | true =>
    rw [codeLines_cons_marker hl]
    split
    · rw [weight_cons, List.length_nil]
      omega
    · omega

theorem weight_codeLines_le (ls : List Text) : weight (codeLines ls) ≤ weight ls := by
  induction ls with
  | nil => exact Nat.le_refl 0
  | cons l r ih =>
    rw [weight_cons]
    have := weight_codeLines_cons_le l r
    omega

theorem length_dropMark {l : Text} (h : hasMark l = true) :
    (dropMark l).length + 1 = l.length := by
  conv_rhs => rw [eq_mark_cons h]
  rw [List.length_cons]

theorem weight_dropMarkLine_le (ls : List Text) : weight (dropMarkLine ls) ≤ weight ls := by
  cases ls with
  | nil => exact Nat.le_refl 0
  | cons l r =>
    rw [dropMarkLine, weight_cons, weight_cons]
    cases hl : hasMark l with
    | false => rw [dropMark_of_not hl]
    | true =>
      have := length_dropMark hl
      omega

theorem dropEmptyEnd_ne_of_weight {xs ys : List Text} (h : weight xs < weight ys) :
    dropEmptyEnd xs ≠ dropEmptyEnd ys := by
  intro he
  have := congrArg weight he
  rw [weight_dropEmptyEnd, weight_dropEmptyEnd] at this
  omega

theorem map_dropReturn_of_not {ls : List Text} (h : ∀ l ∈ ls, endsInReturn l = false) :
    ls.map dropReturn = ls := by
  have hid : ∀ l ∈ ls, dropReturn l = id l := fun l hl => dropReturn_of_not (h l hl)
  rw [List.map_congr_left hid, List.map_id]

/-! ## 2. What a comparison finds -/

/-- The lines `ys` of what was kept of an output, the lines `ls` of the whole output, and the lines
`xs` that are read back: nothing is gained on the way, so the normal forms are the same only if
nothing is lost at any step. -/
theorem dropEmptyEnd_map_dropReturn_iff {xs ys ls : List Text} (hx : weight xs ≤ weight ys)
    (hy : dropEmptyEnd ys = dropEmptyEnd ls ∨ weight ys < weight ls) :
    dropEmptyEnd (xs.map dropReturn) = dropEmptyEnd ls ↔
      (∀ l ∈ dropEmptyEnd ls, endsInReturn l = false) ∧ dropEmptyEnd ys = dropEmptyEnd ls ∧
        dropEmptyEnd xs = dropEmptyEnd ys := by
  constructor
  · intro h
    have hw := congrArg weight h
    rw [weight_dropEmptyEnd, weight_dropEmptyEnd] at hw
    have hr := weight_map_dropReturn_le xs
    -- what is lost at one step is not found again at a later one
    have he : dropEmptyEnd ys = dropEmptyEnd ls := by
      rcases hy with hy | hy
      · exact hy
      · omega
    have hyl := congrArg weight he
    rw [weight_dropEmptyEnd, weight_dropEmptyEnd] at hyl
    have hxr : ∀ l ∈ xs, endsInReturn l = false := endsInReturn_of_weight (by omega)
    rw [map_dropReturn_of_not hxr] at h
    refine ⟨fun l hl => ?_, he, h.trans he.symm⟩
    rw [← h] at hl
    exact hxr l (mem_of_mem_dropEmptyEnd hl)
  · rintro ⟨hr, he, hxy⟩
    have hxr : ∀ l ∈ xs, endsInReturn l = false := by
      intro l hl
      by_cases hne : l = []
      · rw [hne]
        rfl
      · apply hr
        rw [← he, ← hxy]
        exact mem_dropEmptyEnd hl hne
    rw [map_dropReturn_of_not hxr, hxy, he]

-- An empty line more in front makes a difference unless all lines are empty.
theorem dropEmptyEnd_cons_empty (ls : List Text) :
    dropEmptyEnd ([] :: ls) = dropEmptyEnd ls ↔ dropEmptyEnd ls = [] := by
  rw [dropEmptyEnd_cons]
  split
  · rename_i h
    exact iff_of_true h.2.symm h.2
  · rename_i h
    have hn : dropEmptyEnd ls ≠ [] := fun he => h ⟨rfl, he⟩
    exact iff_of_false (fun he => absurd (congrArg List.length he) (by simp)) hn

/-! ## 3. Marks and markers at the top -/

-- The first lines of what is read back below a marker: `l :: r` are the rows of what was written.
-- Markers at the top leave one empty line more.
theorem codeLines_below_marker_plain {m l : Text} (hm : isMarker m = true)
    (hl : hasMark l = false) (r : List Text) :
    let xs := codeLines (dropMarkLine (codeLines (m :: l :: r)))
    let ys := codeLines (dropMarkLine (l :: r))
    (topMarkers (dropMarkLine (l :: r)) = 0 ∧ xs = ys) ∨
      (0 < topMarkers (dropMarkLine (l :: r)) ∧ xs = [] :: ys) := by
  intro xs ys
  have hxs : xs = codeLines (dropMarkLine (codeLines (m :: l :: r))) := rfl
  have hys : ys = codeLines (dropMarkLine (l :: r)) := rfl
  rw [codeLines_cons_marker hm, leads_cons] at hxs
  rw [dropMarkLine, dropMark_of_not hl] at hys ⊢
  cases hc : isMarker l with
  | true =>
    right
    rw [hc, if_pos rfl] at hxs
    refine ⟨?_, ?_⟩
    · rw [topMarkers_cons_marker hc]
      omega
    · have hd : dropMarkLine ([] :: codeLines (l :: r)) = [] :: codeLines (l :: r) := rfl
      rw [hxs, hys, hd, codeLines_cons_code rfl, codeLines_codeLines]
  | false =>
    left
    rw [hc, if_neg (by decide)] at hxs
    refine ⟨topMarkers_cons_code hc r, ?_⟩
    rw [hxs, hys, codeLines_cons_code hc, dropMarkLine, dropMark_of_not hl,
      codeLines_cons_code hc, codeLines_codeLines]

-- A mark hides the first of the markers when it is written, and is gone when it is read.
theorem codeLines_below_marker_mark {m l : Text} (hm : isMarker m = true)
    (hl : hasMark l = true) (r : List Text) :
    let xs := codeLines (dropMarkLine (codeLines (m :: l :: r)))
    let ys := codeLines (dropMarkLine (l :: r))
    (topMarkers (dropMarkLine (l :: r)) ≤ 1 ∧ xs = ys) ∨
      (1 < topMarkers (dropMarkLine (l :: r)) ∧ ys = [] :: xs) := by
  intro xs ys
  have hxs : xs = codeLines (dropMarkLine (codeLines (m :: l :: r))) := rfl
  have hys : ys = codeLines (dropMark l :: r) := rfl
  have hc : isMarker l = false := by
    rw [eq_mark_cons hl]
    exact isMarker_cons_ne (by decide) _
  rw [codeLines_cons_marker hm, leads_cons, hc, if_neg (by decide), codeLines_cons_code hc,
    dropMarkLine] at hxs
  rw [dropMarkLine]
  cases hd : isMarker (dropMark l) with
  | false =>
    left
    refine ⟨?_, ?_⟩
    · rw [topMarkers_cons_code hd]
      omega
    · rw [hxs, hys, codeLines_cons_code hd, codeLines_cons_code hd, codeLines_codeLines]
  | true =>
    rw [codeLines_cons_marker hd, codeLines_codeLines] at hxs
    rw [codeLines_cons_marker hd] at hys
    rw [topMarkers_cons_marker hd]
    -- the hidden marker is read as one now, so it matters what follows it
    cases r with
    | nil =>
      left
      refine ⟨?_, ?_⟩
      · rw [topMarkers_nil]
      · rw [hxs, hys]
        rfl
    | cons x s =>
      rw [leads_codeLines (List.cons_ne_nil x s), if_neg (by decide)] at hxs
      rw [leads_cons] at hys
      cases hx : isMarker x with
      | true =>
        right
        rw [hx, if_pos rfl] at hys
        refine ⟨?_, ?_⟩
        · rw [topMarkers_cons_marker hx]
          omega
        · rw [hxs, hys]
      | false =>
        left
        rw [hx, if_neg (by decide)] at hys
        refine ⟨?_, ?_⟩
        · rw [topMarkers_cons_code hx]
        · rw [hxs, hys]

theorem codeLines_below_marker {m : Text} (hm : isMarker m = true) (l : Text) (r : List Text) :
    let xs := codeLines (dropMarkLine (codeLines (m :: l :: r)))
    let ys := codeLines (dropMarkLine (l :: r))
    let hidden := if hasMark l = true then 1 else 0
    (topMarkers (dropMarkLine (l :: r)) ≤ hidden ∧ xs = ys) ∨
      (hidden < topMarkers (dropMarkLine (l :: r)) ∧ (xs = [] :: ys ∨ ys = [] :: xs)) := by
  intro xs ys hidden
  cases hl : hasMark l with
  | false =>
    have hh : hidden = 0 := if_neg (by simp [hl])
    rw [hh]
    rcases codeLines_below_marker_plain hm hl r with ⟨ht, he⟩ | ⟨ht, he⟩
    · exact Or.inl ⟨Nat.le_of_eq ht, he⟩
    · exact Or.inr ⟨ht, Or.inl he⟩
  | true =>
    have hh : hidden = 1 := if_pos hl
    rw [hh]
    rcases codeLines_below_marker_mark hm hl r with ⟨ht, he⟩ | ⟨ht, he⟩
    · exact Or.inl ⟨ht, he⟩
    · exact Or.inr ⟨ht, Or.inr he⟩

/-- What is read back below a marker has the normal form of what was written, unless markers stand at
the top of it. -/
theorem dropEmptyEnd_below_marker {m : Text} (hm : isMarker m = true) (l : Text) (r : List Text) :
    let xs := codeLines (dropMarkLine (codeLines (m :: l :: r)))
    let ys := codeLines (dropMarkLine (l :: r))
    weight xs ≤ weight ys ∧ (dropEmptyEnd xs = dropEmptyEnd ys ↔ dropEmptyEnd ys = [] ∨
      topMarkers (dropMarkLine (l :: r)) ≤ if hasMark l = true then 1 else 0) := by
  intro xs ys
  rcases codeLines_below_marker hm l r with ⟨ht, he⟩ | ⟨ht, he⟩
  · have he : xs = ys := he
    rw [he]
    exact ⟨Nat.le_refl _, iff_of_true rfl (Or.inr ht)⟩
  · have he : xs = [] :: ys ∨ ys = [] :: xs := he
    have hw : weight xs ≤ weight ys := by
      rcases he with he | he
      · rw [he, weight_cons, List.length_nil]
        omega
      · rw [he, weight_cons, List.length_nil]
        omega
    refine ⟨hw, ?_⟩
    rw [or_iff_left (Nat.not_le_of_lt ht)]
    rcases he with he | he
    · rw [he]
      exact dropEmptyEnd_cons_empty ys
    · rw [he, eq_comm, dropEmptyEnd_cons_empty]
      constructor
      · intro hx
        exact ((dropEmptyEnd_cons_empty xs).2 hx).trans hx
      · intro hx
        rw [dropEmptyEnd_eq_nil] at hx ⊢
        exact fun k hk => hx k (List.mem_cons_of_mem [] hk)

theorem hasMark_unlines_dropEmptyEnd (l : Text) (r : List Text) :
    hasMark (unlines (dropEmptyEnd (l :: r))) = hasMark l := by
  rw [dropEmptyEnd_cons]
  split
  · rename_i h
    rw [h.1]
    rfl
  · exact hasMark_unlines_cons l _

/-- What is read back without a marker above has the normal form of what was written, unless a mark
stands before it. The rows of what was written, without a mark, are `l :: r`. -/
theorem dropEmptyEnd_without_marker (l : Text) (r : List Text) :
    let xs := codeLines (dropMarkLine (codeLines (dropMarkLine (l :: r))))
    let ys := codeLines (l :: r)
    weight xs ≤ weight ys ∧
      (dropEmptyEnd xs = dropEmptyEnd ys ↔ hasMark (unlines (dropEmptyEnd ys)) = false) := by
  intro xs ys
  -- a mark before the first line of code is lost
  have hlost : weight xs < weight ys → hasMark (unlines (dropEmptyEnd ys)) = true →
      weight xs ≤ weight ys ∧
        (dropEmptyEnd xs = dropEmptyEnd ys ↔ hasMark (unlines (dropEmptyEnd ys)) = false) := by
    intro hw hm
    exact ⟨Nat.le_of_lt hw, iff_of_false (dropEmptyEnd_ne_of_weight hw) (by simp [hm])⟩
  have hle : weight xs ≤ weight (codeLines (dropMarkLine (l :: r))) :=
    (weight_codeLines_le _).trans (weight_dropMarkLine_le _)
  cases hl : hasMark l with
  | true =>
    have hys : ys = l :: codeLines r := by
      apply codeLines_cons_code
      rw [eq_mark_cons hl]
      exact isMarker_cons_ne (by decide) _
    apply hlost
    · have h1 := length_dropMark hl
      have h2 := weight_codeLines_cons_le (dropMark l) r
      rw [dropMarkLine] at hle
      rw [hys, weight_cons]
      omega
    · rw [hys, hasMark_unlines_dropEmptyEnd, hl]
  | false =>
    have hxs : xs = codeLines (dropMarkLine ys) := by
      show codeLines (dropMarkLine (codeLines (dropMarkLine (l :: r)))) = _
      rw [dropMarkLine, dropMark_of_not hl]
    obtain ⟨y, s, hy⟩ := List.exists_cons_of_ne_nil (codeLines_ne_nil (List.cons_ne_nil l r))
    have hy : ys = y :: s := hy
    cases hm : hasMark y with
    | true =>
      apply hlost
      · have h1 := length_dropMark hm
        have h2 := weight_codeLines_le (dropMarkLine ys)
        rw [hy, dropMarkLine, weight_cons] at h2
        rw [hxs, hy, dropMarkLine, weight_cons]
        omega
      · rw [hy, hasMark_unlines_dropEmptyEnd, hm]
    | false =>
      have he : xs = ys := by
        rw [hxs]
        conv_lhs => rw [hy, dropMarkLine, dropMark_of_not hm, ← hy]
        exact codeLines_codeLines _
      rw [he]
      refine ⟨Nat.le_refl _, iff_of_true rfl ?_⟩
      rw [hy, hasMark_unlines_dropEmptyEnd, hm]

/-! ## 4. Blanks at the end -/

-- The rows `front ++ [l]` of what was kept of an output, and those of the whole output: `v` and
-- `more` are the blanks that were cut off.
theorem codeLines_cut (front : List Text) (l : Text) {v : Text} {more : List Text}
    (hv : ∀ c ∈ v, isBlank c = true)
    (hmore : ∀ u ∈ more, ∀ c ∈ u, isBlank c = true) :
    ∃ top, codeLines (front ++ [l]) = top ++ (if isMarker l = true then [[]] else [l]) ∧
      codeLines (front ++ (l ++ v) :: more) =
        top ++ if isMarker l = true then orEmpty more else (l ++ v) :: more := by
  obtain ⟨top, htop⟩ := exists_codeLines_append front (isMarker l)
  have hlv : isMarker (l ++ v) = isMarker l := isMarker_append_blank l hv
  have hm : ∀ u ∈ more, isMarker u = false := fun u hu => isMarker_blank (hmore u hu)
  refine ⟨top, ?_, ?_⟩
  · rw [htop l rfl]
    cases hl : isMarker l with
    | true =>
      rw [codeLines_cons_marker hl]
      rfl
    | false =>
      rw [codeLines_cons_code hl]
      rfl
  · rw [htop (l ++ v) hlv]
    cases hl : isMarker l with
    | true =>
      rw [codeLines_cons_marker (hlv.trans hl), codeLines_eq_self hm, if_pos rfl]
      unfold orEmpty
      cases more with
      | nil => rfl
      | cons u r => rw [leads_cons, hm u List.mem_cons_self, if_neg (by decide), if_neg (by simp)]
    | false =>
      rw [codeLines_cons_code (hlv.trans hl), codeLines_eq_self hm, if_neg (by decide)]

theorem dropEmptyEnd_append_of_empty (a : List Text) {b : List Text} (h : ∀ l ∈ b, l = []) :
    dropEmptyEnd (a ++ b) = dropEmptyEnd a := by
  induction b using List.reverseRecOn with
  | nil => rw [List.append_nil]
  | append_singleton r l ih =>
    obtain rfl : l = [] := h l (by simp)
    rw [← List.append_assoc, dropEmptyEnd_append_empty, ih fun x hx => h x (by simp [hx])]

theorem weight_orEmpty (ls : List Text) : weight (orEmpty ls) = weight ls := by
  unfold orEmpty
  split
  · rename_i h
    rw [h]
    rfl
  · rfl

/-- The normal form is kept where only blanks behind a marker and empty lines are cut off, and else
characters are lost. -/
theorem dropEmptyEnd_cut (front : List Text) (l : Text) {v : Text} {more : List Text}
    (hv : ∀ c ∈ v, isBlank c = true)
    (hmore : ∀ u ∈ more, ∀ c ∈ u, isBlank c = true) :
    let ys := codeLines (front ++ [l])
    let ls := codeLines (front ++ (l ++ v) :: more)
    ((isMarker l = true ∨ v = []) ∧ (∀ u ∈ more, u = []) ∧ dropEmptyEnd ys = dropEmptyEnd ls) ∨
      ((¬ (isMarker l = true ∨ v = []) ∨ ¬ ∀ u ∈ more, u = []) ∧ weight ys < weight ls) := by
  intro ys ls
  obtain ⟨top, hy, hl⟩ := codeLines_cut front l hv hmore
  have hy : ys = _ := hy
  have hl : ls = _ := hl
  by_cases hm : ∀ u ∈ more, u = []
  · cases hk : isMarker l with
    | true =>
      rw [hk, if_pos rfl] at hy hl
      refine Or.inl ⟨Or.inl rfl, hm, ?_⟩
      have ho : ∀ u ∈ orEmpty more, u = [] := by
        unfold orEmpty
        split
        · simp
        · exact hm
      rw [hy, hl, dropEmptyEnd_append_of_empty top ho, dropEmptyEnd_append_of_empty top (by simp)]
    | false =>
      rw [hk, if_neg (by decide)] at hy hl
      by_cases hve : v = []
      · refine Or.inl ⟨Or.inr hve, hm, ?_⟩
        have hs : ls = ys ++ more := by
          rw [hl, hy, hve, List.append_nil, List.append_assoc]
          rfl
        rw [hs, dropEmptyEnd_append_of_empty ys hm]
      · refine Or.inr ⟨Or.inl (by simp [hve]), ?_⟩
        have := List.length_pos_of_ne_nil hve
        rw [hy, hl, weight_append, weight_append, weight_cons, weight_cons, weight_nil,
          List.length_append]
        omega
  · refine Or.inr ⟨Or.inr hm, ?_⟩
    have hpos : 0 < weight more := by
      rw [Nat.pos_iff_ne_zero, ne_eq, weight_eq_zero]
      exact hm
    rw [hy, hl, weight_append, weight_append]
    split
    · rw [weight_orEmpty, weight_cons, weight_nil, List.length_nil]
      omega
    · rw [weight_cons, weight_cons, weight_nil, List.length_append]
      omega

theorem topMarkers_cut {front more : List Text} {l v : Text} (hv : ∀ c ∈ v, isBlank c = true)
    (hmore : ∀ u ∈ more, ∀ c ∈ u, isBlank c = true) :
    topMarkers (front ++ [l]) = topMarkers (front ++ (l ++ v) :: more) := by
  have hm : topMarkers more = 0 := topMarkers_of_code fun u hu => isMarker_blank (hmore u hu)
  have hlv : isMarker (l ++ v) = isMarker l := isMarker_append_blank l hv
  apply topMarkers_append
  cases hl : isMarker l with
  | true =>
    rw [topMarkers_cons_marker hl, topMarkers_cons_marker (hlv.trans hl), hm, topMarkers_nil]
  | false => rw [topMarkers_cons_code hl, topMarkers_cons_code (hlv.trans hl)]

end Baselines.Comparison
