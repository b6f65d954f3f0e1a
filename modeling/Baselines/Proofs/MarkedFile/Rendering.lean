import Baselines.Proofs.MarkedFile.CodeLines

/-!
# Files with one section

A file with one section is read back as the rows of its code, below its marker if it has one.
-/

namespace Baselines.MarkedFile

open Text

/-! ## 1. Names in markers -/

/-- What a marker can name: nothing that would end the name, or the line. -/
structure Markable (file : Text) : Prop where
  nonempty : file ≠ []
  bracket : ']' ∉ file
  lineFeed : '\n' ∉ file

theorem isMarker_markerLine {file : Text} (h : Markable file) :
    isMarker (markerLine file) = true := by
  unfold isMarker
  rw [marker?_markerLine h.nonempty h.bracket]
  rfl

theorem not_mem_markerLine {file : Text} (h : Markable file) : '\n' ∉ markerLine file := by
  unfold markerLine opening
  simp only [List.mem_append, List.mem_singleton, not_or]
  exact ⟨⟨by decide, h.lineFeed⟩, by decide⟩

theorem dropReturn_markerLine (file : Text) : dropReturn (markerLine file) = markerLine file := by
  apply dropReturn_of_not
  simp [endsInReturn, markerLine]

theorem mem_blocks {file : Text} {front ls : List Text} (h : (file, front) ∈ (blocks ls).2) :
    ∃ l ∈ ls, marker? l = some file := by
  induction ls with
  | nil => exact absurd h List.not_mem_nil
  | cons x r ih =>
    rw [blocks] at h
    cases hx : marker? x with
    | none =>
      rw [hx] at h
      obtain ⟨l, hl, hm⟩ := ih h
      exact ⟨l, List.mem_cons_of_mem x hl, hm⟩
    | some g =>
      rw [hx] at h
      rcases List.mem_cons.1 h with he | h
      · obtain ⟨rfl, -⟩ := Prod.mk.inj he
        exact ⟨x, List.mem_cons_self, hx⟩
      · obtain ⟨l, hl, hm⟩ := ih h
        exact ⟨l, List.mem_cons_of_mem x hl, hm⟩

theorem markable_of_mem_blocks {file : Text} {front ls : List Text} (hls : ∀ l ∈ ls, '\n' ∉ l)
    (h : (file, front) ∈ (blocks ls).2) : Markable file := by
  obtain ⟨l, hl, hm⟩ := mem_blocks h
  obtain ⟨tail, rfl, hne, hn, -⟩ := marker?_eq_some.1 hm
  have hlf := hls _ hl
  simp only [List.mem_append, not_or] at hlf
  exact ⟨hne, hn, hlf.2.1⟩

/-- The first source that a file names could be named in a marker. -/
theorem markable_of_primary? {t file : Text} (h : (parse t).primary? = some file) :
    Markable file := by
  obtain ⟨s, hs, hf⟩ := List.exists_of_findSome?_eq_some h
  unfold parse ofLines at hs
  rcases List.mem_append.1 hs with hs | hs
  · split at hs
    · exact absurd hs List.not_mem_nil
    · obtain rfl := List.mem_singleton.1 hs
      exact absurd hf (by simp)
  · obtain ⟨⟨g, front⟩, hb, rfl⟩ := List.mem_map.1 hs
    obtain rfl : g = file := by simpa using hf
    exact markable_of_mem_blocks (fun _ => not_mem_lines) hb

/-! ## 2. Below a marker -/

theorem render_single (file c : Text) : (single file c).render =
    join ['\n'] (if c = [] then [markerLine file] else [markerLine file, c]) ++ ['\n'] := by
  unfold single render
  rw [List.flatMap_singleton]
  rfl

-- A file with one named section has the marker's line and the rows of its code, unless there is
-- none.
theorem lines_render_single {file c : Text} (hf : Markable file) (hc : endsInReturn c = false) :
    lines (single file c).render = markerLine file :: if c = [] then [] else rows c := by
  have hm : splitOn '\n' (markerLine file) = [markerLine file] :=
    splitOn_of_not_mem (not_mem_markerLine hf)
  rw [render_single, lines_append_lineFeed]
  by_cases h : c = []
  · rw [if_pos h, if_pos h, join, hm, List.map_singleton, dropReturn_markerLine]
  · rw [if_neg h, if_neg h, join, join, List.singleton_append, splitOn_append, hm,
      List.singleton_append, List.map_cons, dropReturn_markerLine, ← lines_append_lineFeed,
      lines_append_lineFeed_eq_rows hc]

theorem dropMark_render_single (file c : Text) :
    dropMark (single file c).render = (single file c).render := by
  apply dropMark_of_not
  rw [render_single]
  by_cases h : c = []
  · rw [if_pos h]
    rfl
  · rw [if_neg h]
    rfl

/-- What is read back below a marker. -/
theorem code_parse_single {file c : Text} (hf : Markable file) (hc : endsInReturn c = false) :
    (parse (single file c).render).code = unlines (codeLines (markerLine file :: rows c)) := by
  have hm := isMarker_markerLine hf
  rw [code_parse, dropMark_render_single, lines_render_single hf hc]
  by_cases h : c = []
  · rw [if_pos h, h, codeLines_cons_marker hm, codeLines_cons_marker hm]
    rfl
  · rw [if_neg h]

/-! ## 3. Without a marker -/

/-- What is read back from a file without a marker. -/
theorem code_parse_unnamed {c : Text} (hc : endsInReturn c = false) :
    (parse (dropMark (render ⟨[{ file := none, body := c }]⟩))).code =
      unlines (codeLines (rows (dropMark (dropMark c)))) := by
  have hr : render ⟨[{ file := none, body := c }]⟩ = c ++ ['\n'] := rfl
  have hd : endsInReturn (dropMark (dropMark c)) = false := by
    by_contra hn
    have hn : (dropMark (dropMark c)).getLast? = some '\r' := by simpa [endsInReturn] using hn
    have := getLast?_dropMark (getLast?_dropMark hn)
    simp [endsInReturn, this] at hc
  rw [code_parse, hr, dropMark_append rfl, dropMark_append rfl, lines_append_lineFeed_eq_rows hd]

end Baselines.MarkedFile
