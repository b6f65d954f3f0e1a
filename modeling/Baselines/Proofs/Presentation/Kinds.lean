import Baselines.Proofs.Comparison.Mismatch
import Baselines.Proofs.Diff.Rows
import Baselines.Proofs.Presentation.Switches

/-!
# Colours of a diff

Each row of a diff has a style by its kind, but the style of a line is guessed from its first
characters. The guess is right exactly when no line begins with a deleted or inserted row that looks
like the name of a text, and rows that share a line are of one kind.
-/

namespace Baselines

open Text Diff Styled

namespace Presentation

variable {rs line rest : List Row} {r : Row} {b l p : Text}

/-! ## 1. Styles by kind -/

def rowStyle : Row → Style
  | .name _ => .strong
  | .header _ => .of .cyan
  | .line .keep _ => .plain
  | .line .delete _ => .of .red
  | .line .insert _ => .of .green

/-- The text of rows as `diff` lays it out, with each row in the style of its kind. -/
def byKind (rs : List Row) : Styled :=
  Text.join (plain "\n") ((inLines rs).map fun line =>
    plain "    " ++ line.flatMap fun r => styled (rowStyle r) r.visible)

/-- A changed line whose row begins like one of the rows that name the texts. -/
def LooksLikeName : Row → Prop
  | .line .delete l => "--" <+: l
  | .line .insert l => "++" <+: l
  | _ => False

/-- Rows whose kinds can be told from the beginnings of their lines. -/
structure Unmistaken (rs : List Row) : Prop where
  named : ∀ line ∈ inLines rs, ∀ r, line.head? = some r → ¬ LooksLikeName r
  alike : ∀ line ∈ inLines rs, ∀ r ∈ line, ∀ x ∈ line, rowStyle r = rowStyle x

/-! ## 2. What is guessed -/

theorem diffLineStyle_congr {s t : Text}
    (h : ∀ p : Text, '\n' ∉ p → '\r' ∉ p → (p <+: s ↔ p <+: t)) :
    diffLineStyle s = diffLineStyle t := by
  have hs : ∀ p : Text, '\n' ∉ p → '\r' ∉ p → startsWith s p = startsWith t p := by
    intro p hn hr
    rw [Bool.eq_iff_iff, startsWith_eq_true_iff, startsWith_eq_true_iff, h p hn hr]
  unfold diffLineStyle
  rw [hs "+++" (by decide) (by decide), hs "---" (by decide) (by decide),
    hs "@@" (by decide) (by decide), hs "+" (by decide) (by decide),
    hs "-" (by decide) (by decide)]

theorem prefix_isLine_iff (h : IsLine b l) (hn : '\n' ∉ p) (hr : '\r' ∉ p) : p <+: l ↔ p <+: b := by
  rcases h.ends with rfl | rfl | rfl
  · exact prefix_append_cons_iff hn
  · exact prefix_append_cons_iff hr
  · exact prefix_append_cons_iff hr

/-- The style of a line is that of its first row alone. -/
theorem diffLineStyle_onLine (h : r.IsWhole) (hrest : r.text.getLast? = some '\n' → rest = []) :
    diffLineStyle (onLine (r :: rest)) = diffLineStyle r.text := by
  obtain ⟨b, -, hl⟩ := h
  refine diffLineStyle_congr fun p hn hr => ?_
  rw [prefix_isLine_iff hl hn hr]
  rcases Row.visible_cases hl with ⟨hlast, hv⟩ | ⟨-, hv⟩
  · rw [hrest hlast, onLine, List.flatMap_singleton, hv]
  · rw [onLine, List.flatMap_cons, hv, List.append_assoc]
    exact prefix_append_cons_iff hr

theorem diffLineStyle_delete (l : Text) :
    diffLineStyle ('-' :: l) = if startsWith l "--" then .strong else .of .red := rfl

theorem diffLineStyle_insert (l : Text) :
    diffLineStyle ('+' :: l) = if startsWith l "++" then .strong else .of .green := by
  show (if startsWith l "++" || false then Style.strong else .of .green) = _
  rw [Bool.or_false]

/-- The style of a line with a single row is the one of its kind unless the row looks like a name. -/
theorem rowStyle_line_eq_iff (a : Action) (l : Text) :
    rowStyle (.line a l) = diffLineStyle (a.sign :: l) ↔ ¬ LooksLikeName (.line a l) := by
  cases a with
  | keep => exact iff_of_true rfl id
  | delete =>
    rw [Action.sign, diffLineStyle_delete, LooksLikeName, ← startsWith_eq_true_iff]
    by_cases hl : startsWith l "--" = true
    · rw [if_pos hl]
      exact iff_of_false nofun (not_not.2 hl)
    · rw [if_neg hl]
      exact iff_of_true rfl hl
  | insert =>
    rw [Action.sign, diffLineStyle_insert, LooksLikeName, ← startsWith_eq_true_iff]
    by_cases hl : startsWith l "++" = true
    · rw [if_pos hl]
      exact iff_of_false nofun (not_not.2 hl)
    · rw [if_neg hl]
      exact iff_of_true rfl hl

variable {n : Nat} {expected actual : Text}

theorem rowStyle_eq_iff (h : r ∈ Diff.rows n (script expected actual)) :
    rowStyle r = diffLineStyle r.text ↔ ¬ LooksLikeName r := by
  rcases mem_rows h with rfl | rfl | ⟨hunk, hh, rfl⟩ | ⟨a, l, rfl⟩
  · exact iff_of_true rfl id
  · exact iff_of_true rfl id
  · refine iff_of_true ?_ id
    obtain ⟨b, hb⟩ := isLine_header (ne_nil_of_mem_cut hh)
    have hstyle : diffLineStyle (header hunk) = diffLineStyle ('@' :: '@' :: b) :=
      diffLineStyle_congr fun p => prefix_isLine_iff hb
    exact hstyle.symm
  · exact rowStyle_line_eq_iff a l

/-- The guesses are right for all rows of a diff exactly when the rows are unmistaken. -/
theorem rowStyle_onLine_iff :
    (∀ line ∈ inLines (Diff.rows n (script expected actual)), ∀ r ∈ line,
        rowStyle r = diffLineStyle (onLine line)) ↔
      Unmistaken (Diff.rows n (script expected actual)) := by
  constructor
  · intro h
    refine ⟨fun line hline r hr => ?_, fun line hline r hr x hx => ?_⟩
    · obtain ⟨r', rest, rfl, hrest⟩ := exists_of_mem_inLines hline
      obtain rfl := Option.some.inj hr
      have hrows := mem_of_mem_inLines hline List.mem_cons_self
      rw [← rowStyle_eq_iff hrows, h _ hline r' List.mem_cons_self,
        diffLineStyle_onLine (isWhole_of_mem_rows hrows) hrest]
    · rw [h line hline r hr, h line hline x hx]
  · intro h line hline r hr
    obtain ⟨r', rest, rfl, hrest⟩ := exists_of_mem_inLines hline
    have hrows := mem_of_mem_inLines hline List.mem_cons_self
    rw [diffLineStyle_onLine (isWhole_of_mem_rows hrows) hrest,
      h.alike _ hline r hr r' List.mem_cons_self]
    exact (rowStyle_eq_iff hrows).2 (h.named _ hline r' rfl)

/-! ## 3. What is shown -/

theorem letters_join (sep : Styled) (ss : List Styled) :
    letters (Text.join sep ss) = Text.join (letters sep) (ss.map letters) := by
  induction ss with
  | nil => rfl
  | cons s ss ih =>
    cases ss with
    | nil => rfl
    | cons u ss =>
      show letters (s ++ (sep ++ Text.join sep (u :: ss))) = _
      rw [letters_append, letters_append, ih]
      rfl

theorem letters_styled (st : Style) (t : Text) : letters (styled st t) = t.map (Prod.mk st) :=
  List.append_nil _

theorem letters_flatMap {α : Type} (f : α → Styled) (xs : List α) :
    letters (xs.flatMap f) = xs.flatMap fun x => letters (f x) := List.flatMap_assoc

/-- A diff is shown with every row in the style of its kind exactly when all guesses are right. -/
theorem letters_diff_eq_iff (h : ∀ r ∈ rs, r.IsWhole) :
    letters (diff (rs.flatMap Row.text)) = letters (byKind rs) ↔
      ∀ line ∈ inLines rs, ∀ r ∈ line, rowStyle r = diffLineStyle (onLine line) := by
  have hguess : letters (diff (rs.flatMap Row.text)) =
      Text.join (letters (plain "\n")) ((inLines rs).map fun line => letters (plain "    ") ++
        line.flatMap fun r => r.visible.map (Prod.mk (diffLineStyle (onLine line)))) := by
    unfold diff
    rw [lines_text h, letters_join, List.map_map, List.map_map]
    congr 2
    funext line
    show letters (plain "    " ++ styled _ (onLine line)) = _
    rw [letters_append, letters_styled, onLine, List.map_flatMap]
  have hkind : letters (byKind rs) =
      Text.join (letters (plain "\n")) ((inLines rs).map fun line => letters (plain "    ") ++
        line.flatMap fun r => r.visible.map (Prod.mk (rowStyle r))) := by
    unfold byKind
    rw [letters_join, List.map_map]
    congr 2
    funext line
    show letters (plain "    " ++ line.flatMap fun r => styled (rowStyle r) r.visible) = _
    rw [letters_append, letters_flatMap]
    simp only [letters_styled]
  rw [hguess, hkind, join_map_eq_iff fun line => by simp [List.length_flatMap]]
  refine forall₂_congr fun line hline => ?_
  rw [List.append_cancel_left_eq, flatMap_eq_iff fun r => by simp]
  refine forall₂_congr fun r hr => ?_
  obtain ⟨c, t, hv⟩ :=
    List.exists_cons_of_ne_nil (h r (mem_of_mem_inLines hline hr)).visible_ne_nil
  rw [hv]
  constructor
  · intro he
    exact (Prod.mk.inj (List.cons.inj he).1).1.symm
  · intro he
    rw [he]

/-! ## 4. Mismatches -/

/-- Where every row ends in a line feed, only a row that looks like a name can be mistaken. -/
theorem unmistaken_iff_of_feeds (h : ∀ r ∈ rs, r.text.getLast? = some '\n') :
    Unmistaken rs ↔
      (∀ l ∈ linesWith .delete rs, ¬ "--" <+: l) ∧ ∀ l ∈ linesWith .insert rs, ¬ "++" <+: l := by
  have hlines := inLines_of_feeds h
  constructor
  · intro hu
    have hnamed : ∀ r ∈ rs, ¬ LooksLikeName r := fun r hr =>
      hu.named [r] (by rw [hlines]; exact List.mem_map_of_mem hr) r rfl
    exact ⟨fun l hl => hnamed _ (mem_linesWith.1 hl), fun l hl => hnamed _ (mem_linesWith.1 hl)⟩
  · rintro ⟨hdelete, hinsert⟩
    refine ⟨fun line hline r hr => ?_, fun line hline r hr x hx => ?_⟩
    · have hmem := mem_of_mem_inLines hline (List.mem_of_head? hr)
      cases r with
      | name t => exact id
      | header t => exact id
      | line a l =>
        cases a with
        | keep => exact id
        | delete => exact hdelete l (mem_linesWith.2 hmem)
        | insert => exact hinsert l (mem_linesWith.2 hmem)
    · rw [hlines] at hline
      obtain ⟨y, -, rfl⟩ := List.mem_map.1 hline
      rw [List.mem_singleton.1 hr, List.mem_singleton.1 hx]

variable {expected actual : Text} {mode : Mode} {m : Mismatch}

/-- What a terminal reads of a coloured diff. -/
theorem shown_diff {d : Text} (h : '\x1b' ∉ d) :
    Style.shown .plain (Glyph.read ((diff d).text true)) = letters (diff d) :=
  shown_painted (isClear_diff h)

theorem text_rows_script (e a : Text) :
    (Comparison.difference e a).diff = (Diff.rows usualContext (script e a)).flatMap Row.text :=
  (text_rows usualContext (script e a)).symm

/-- The diff of a mismatch is made up of rows, which show every deleted and every inserted line. It is
shown with the names of the texts in bold, the headers of hunks in cyan, the inserted lines in green,
the deleted ones in red and the kept ones plain exactly when its rows are unmistaken; and where every
row ends in a line feed, exactly when no deleted line begins with two hyphens and no inserted one with
two plus signs. What is shown is what a terminal reads, where the diff holds no escape character. -/
theorem letters_diff_of_mismatch (h : (Comparison.compare expected actual mode).mismatch = some m) :
    let s := script (Comparison.normalize expected) (Comparison.normalize actual)
    let rs := Diff.rows usualContext s
    (m.diff = rs.flatMap Row.text ∧ linesWith .delete rs = s.linesWith .delete ∧
        linesWith .insert rs = s.linesWith .insert ∧
        (linesWith .keep rs).Sublist (s.linesWith .keep)) ∧
      (letters (diff m.diff) = letters (byKind rs) ↔ Unmistaken rs) ∧
      ((∀ r ∈ rs, r.text.getLast? = some '\n') →
        (Unmistaken rs ↔ (∀ l ∈ s.linesWith .delete, ¬ "--" <+: l) ∧
          ∀ l ∈ s.linesWith .insert, ¬ "++" <+: l)) ∧
      ('\x1b' ∉ m.diff →
        Style.shown .plain (Glyph.read ((diff m.diff).text true)) = letters (diff m.diff)) := by
  obtain ⟨-, rfl⟩ := Comparison.mismatch_eq_some h
  generalize Comparison.normalize expected = e
  generalize Comparison.normalize actual = a
  intro s rs
  have hdelete : linesWith .delete rs = s.linesWith .delete :=
    linesWith_rows_of_ne (by decide) usualContext s
  have hinsert : linesWith .insert rs = s.linesWith .insert :=
    linesWith_rows_of_ne (by decide) usualContext s
  refine ⟨⟨text_rows_script e a, hdelete, hinsert, linesWith_rows_sublist .keep usualContext s⟩, ?_,
    fun hfeeds => ?_, shown_diff⟩
  · rw [text_rows_script, letters_diff_eq_iff fun r hr => isWhole_of_mem_rows hr]
    exact rowStyle_onLine_iff
  · rw [unmistaken_iff_of_feeds hfeeds, hdelete, hinsert]

-- Lines that begin with the signs themselves are told apart.
def signedMismatch : Mismatch where
  diff := "--- expected\n+++ actual\n@@ -1,3 +1,3 @@\n @a\n--b\n++b\n c\n"
  stats := { inserted := 1, deleted := 1 }
  firstLine := some 2

theorem letters_diff_of_mismatch_signed :
    let rs := Diff.rows usualContext
      (script (Comparison.normalize "@a\n-b\nc") (Comparison.normalize "@a\n+b\nc"))
    (Comparison.compare "@a\n-b\nc" "@a\n+b\nc" .exact).mismatch = some signedMismatch ∧
      (∀ r ∈ rs, r.text.getLast? = some '\n') ∧ '\x1b' ∉ signedMismatch.diff ∧
      Style.shown .plain (Glyph.read ((diff signedMismatch.diff).text true)) =
        letters (byKind rs) := by
  intro rs
  have hm : (Comparison.compare "@a\n-b\nc" "@a\n+b\nc" .exact).mismatch =
      some signedMismatch := by decide +kernel
  have hfeeds : ∀ r ∈ rs, r.text.getLast? = some '\n' := by decide +kernel
  have hclear : '\x1b' ∉ signedMismatch.diff := by decide
  obtain ⟨-, hkinds, hunmistaken, hshown⟩ := letters_diff_of_mismatch hm
  refine ⟨hm, hfeeds, hclear, (hshown hclear).trans (hkinds.2 ((hunmistaken hfeeds).2 ?_))⟩
  decide +kernel

-- A deleted line that begins with two hyphens is taken for the name of a text.
def hyphenMismatch : Mismatch where
  diff := "--- expected\n+++ actual\n@@ -1 +1 @@\n--- a\n+b\n"
  stats := { inserted := 1, deleted := 1 }
  firstLine := some 1

theorem letters_diff_hyphens :
    let rs := Diff.rows usualContext (script (Comparison.normalize "-- a") (Comparison.normalize "b"))
    (Comparison.compare "-- a" "b" .exact).mismatch = some hyphenMismatch ∧
      .line .delete "-- a\n" ∈ rs ∧ (Style.strong, "--- a".toList) ∈ diff hyphenMismatch.diff ∧
      letters (diff hyphenMismatch.diff) ≠ letters (byKind rs) := by
  refine ⟨?_, ?_, ?_, ?_⟩
  · decide +kernel
  · decide +kernel
  · decide +kernel
  · decide +kernel

end Presentation

end Baselines
