import Baselines.Proofs.Diff.Lines
import Baselines.Proofs.Diff.Validity

/-!
# Rows of a diff

A diff consists of rows: the two that name its texts, the headers of its hunks, and lines that were
kept, deleted or inserted. Each row has a line end of its own. Where that is a carriage return alone,
the row shares a line of the text with the row below it.
-/

namespace Baselines.Diff

open Text

/-! ## 1. Rows -/

/-- A row of a diff. -/
inductive Row where
  /-- One of the two rows above the hunks, which name the texts. -/
  | name (t : Text)
  /-- The header of a hunk. -/
  | header (t : Text)
  /-- A line, and what is done with it. -/
  | line (a : Action) (l : Text)
  deriving DecidableEq, Repr

def Action.sign : Action → Char
  | .keep => ' '
  | .delete => '-'
  | .insert => '+'

def Row.text : Row → Text
  | name t => t
  | header t => t
  | line a l => a.sign :: l

-- The line of a row with which the action is done.
def Row.lineWith? (a : Action) : Row → Option Text
  | line b l => if b = a then some l else none
  | _ => none

/-- The lines of rows with which an action is done. -/
def linesWith (a : Action) (rs : List Row) : List Text := rs.filterMap (Row.lineWith? a)

def Block.rows : Block → List Row
  | same ls _ _ => ls.map (.line .keep)
  | change ds is _ _ => ds.map (.line .delete) ++ is.map (.line .insert)

def blockRows (bs : List Block) : List Row := bs.flatMap Block.rows

def hunkRows (hunk : List Block) : List Row := .header (header hunk) :: blockRows hunk

/-- The rows of the unified diff of a script. -/
def rows (context : Nat) (s : Script) : List Row :=
  match hunks context s with
  | [] => []
  | hs => .name "--- expected\n" :: .name "+++ actual\n" :: hs.flatMap hunkRows

/-- The lines of a script with which an action is done. -/
def Script.linesWith (a : Action) (s : Script) : List Text :=
  (s.filter (·.action = a)).flatMap (·.lines)

variable {n : Nat} {s : Script} {a : Action} {e : Edit} {b : Block} {bs opened : List Block}

/-! ### The text of the rows -/

theorem text_line (a : Action) (ls : List Text) :
    (ls.map (Row.line a)).flatMap Row.text = ls.flatMap fun l => a.sign :: l := by
  rw [List.flatMap_map]
  rfl

theorem text_blockRows (bs : List Block) :
    (blockRows bs).flatMap Row.text = bs.flatMap Block.text := by
  unfold blockRows
  rw [List.flatMap_assoc]
  congr 1
  funext b
  cases b with
  | same ls i j => exact text_line .keep ls
  | change ds is i j =>
    rw [Block.rows, List.flatMap_append, text_line, text_line]
    rfl

/-- The rows of a diff make up its text. -/
theorem text_rows (n : Nat) (s : Script) : (rows n s).flatMap Row.text = unifiedText n s := by
  have hhunk : (fun hunk => (hunkRows hunk).flatMap Row.text) = hunkText := by
    funext hunk
    rw [hunkRows, List.flatMap_cons, text_blockRows]
    rfl
  unfold rows unifiedText
  cases hunks n s with
  | nil => rfl
  | cons h hs =>
    dsimp only
    rw [List.flatMap_cons, List.flatMap_cons, List.flatMap_assoc, hhunk]
    rfl

/-! ### The lines of the rows -/

@[simp] theorem linesWith_nil (a : Action) : linesWith a [] = [] := rfl

@[simp] theorem linesWith_append (a : Action) (rs qs : List Row) :
    linesWith a (rs ++ qs) = linesWith a rs ++ linesWith a qs := List.filterMap_append

@[simp] theorem linesWith_line (a b : Action) (ls : List Text) :
    linesWith a (ls.map (.line b)) = if b = a then ls else [] := by
  unfold linesWith
  rw [List.filterMap_map]
  by_cases h : b = a
  · rw [if_pos h]
    simp [Row.lineWith?, h]
  · rw [if_neg h]
    simp [Row.lineWith?, h]

theorem mem_linesWith {rs : List Row} {l : Text} : l ∈ linesWith a rs ↔ .line a l ∈ rs := by
  simp only [linesWith, List.mem_filterMap]
  constructor
  · rintro ⟨r, hr, hl⟩
    cases r with
    | name t => exact absurd hl (by simp [Row.lineWith?])
    | header t => exact absurd hl (by simp [Row.lineWith?])
    | line b k =>
      simp only [Row.lineWith?, Option.ite_none_right_eq_some, Option.some.injEq] at hl
      obtain ⟨rfl, rfl⟩ := hl
      exact hr
  · exact fun h => ⟨_, h, if_pos rfl⟩

@[simp] theorem blockRows_nil : blockRows [] = [] := rfl

@[simp] theorem blockRows_cons (b : Block) (bs : List Block) :
    blockRows (b :: bs) = b.rows ++ blockRows bs := List.flatMap_cons

@[simp] theorem blockRows_append (bs cs : List Block) :
    blockRows (bs ++ cs) = blockRows bs ++ blockRows cs := List.flatMap_append

-- A run joins the lines that are there with its action, in front of them.
theorem linesWith_addRun (a : Action) (e : Edit) (bs : List Block) :
    linesWith a (blockRows (addRun e bs)) =
      (if e.action = a then e.lines else []) ++ linesWith a (blockRows bs) := by
  cases he : e.action with
  | keep =>
    cases bs with
    | nil => cases a <;> simp [addRun, he, Block.rows]
    | cons b r => cases b <;> cases a <;> simp [addRun, he, Block.rows]
  | delete =>
    cases bs with
    | nil => cases a <;> simp [addRun, he, Block.rows]
    | cons b r => cases b <;> cases a <;> simp [addRun, he, Block.rows]
  | insert =>
    cases bs with
    | nil => cases a <;> simp [addRun, he, Block.rows]
    | cons b r => cases b <;> cases a <;> simp [addRun, he, Block.rows]

theorem linesWith_blocks (a : Action) (s : Script) :
    linesWith a (blockRows (blocks s)) = s.linesWith a := by
  induction s with
  | nil => rfl
  | cons e s ih =>
    have hb : blocks (e :: s) = addRun e (blocks s) := rfl
    rw [hb, linesWith_addRun, ih, Script.linesWith, Script.linesWith, List.filter_cons]
    by_cases he : e.action = a
    · simp [he]
    · simp [he]

/-- Rows that are there without some of their kept lines. -/
structure Thinned (rs qs : List Row) : Prop where
  sublist : rs.Sublist qs
  changes : ∀ a, a ≠ .keep → linesWith a rs = linesWith a qs

namespace Thinned

variable {rs qs rs' qs' : List Row}

theorem refl (rs : List Row) : Thinned rs rs := ⟨List.Sublist.refl rs, fun _ _ => rfl⟩

theorem trans {ps : List Row} (h : Thinned rs qs) (h' : Thinned qs ps) : Thinned rs ps :=
  ⟨h.sublist.trans h'.sublist, fun a ha => (h.changes a ha).trans (h'.changes a ha)⟩

theorem append (h : Thinned rs qs) (h' : Thinned rs' qs') : Thinned (rs ++ rs') (qs ++ qs') := by
  refine ⟨h.sublist.append h'.sublist, fun a ha => ?_⟩
  rw [linesWith_append, linesWith_append, h.changes a ha, h'.changes a ha]

theorem keep {ls ks : List Text} (h : ls.Sublist ks) :
    Thinned (ls.map (.line .keep)) (ks.map (.line .keep)) := by
  refine ⟨h.map _, fun a ha => ?_⟩
  rw [linesWith_line, linesWith_line, if_neg ha.symm, if_neg ha.symm]

end Thinned

theorem thinned_trimFirst (n : Nat) (bs : List Block) :
    Thinned (blockRows (trimFirst n bs)) (blockRows bs) := by
  cases bs with
  | nil => exact Thinned.refl _
  | cons b r =>
    cases b with
    | same ls i j =>
      rw [trimFirst, blockRows_cons, blockRows_cons]
      exact (Thinned.keep (List.drop_sublist _ ls)).append (Thinned.refl _)
    | change ds is i j => exact Thinned.refl _

theorem thinned_trimLast (n : Nat) (bs : List Block) :
    Thinned (blockRows (trimLast n bs)) (blockRows bs) := by
  induction bs with
  | nil => exact Thinned.refl _
  | cons b r ih =>
    cases r with
    | nil =>
      cases b with
      | same ls i j =>
        rw [trimLast, blockRows_cons, blockRows_cons]
        exact (Thinned.keep (List.take_sublist n ls)).append (Thinned.refl _)
      | change ds is i j => exact Thinned.refl _
    | cons c r =>
      have ht : trimLast n (b :: c :: r) = b :: trimLast n (c :: r) := by
        cases b <;> rfl
      rw [ht, blockRows_cons, blockRows_cons b]
      exact (Thinned.refl b.rows).append ih

-- Where the blocks are cut, lines in the middle of a long run of kept lines are left out.
theorem thinned_cut (n : Nat) (opened bs : List Block) :
    Thinned ((cut n opened bs).flatMap blockRows) (blockRows opened.reverse ++ blockRows bs) := by
  induction bs generalizing opened with
  | nil =>
    rw [blockRows_nil, List.append_nil]
    unfold cut
    split
    · exact Thinned.refl _
    · rename_i ls i j
      simpa [Block.rows] using Thinned.keep (List.nil_sublist ls)
    · rw [List.flatMap_singleton]
      exact Thinned.refl _
  | cons b r ih =>
    cases b with
    | change ds is i j =>
      rw [cut]
      · simpa using ih (.change ds is i j :: opened)
      · simp
    | same ls i j =>
      rw [cut]
      split
      · rename_i hlong
        rw [List.flatMap_cons, List.reverse_cons, blockRows_append, List.append_assoc]
        refine (Thinned.refl _).append ?_
        have hparts : (ls.take n ++ ls.drop (ls.length - n)).Sublist ls := by
          have hd : (ls.drop (ls.length - n)).Sublist (ls.drop n) :=
            (List.drop_suffix_drop_left ls (by omega)).sublist
          simpa using (List.Sublist.refl (ls.take n)).append hd
        have hrest := (Thinned.refl ((ls.take n).map (Row.line .keep))).append
          (ih [.same (ls.drop (ls.length - n)) (i + (ls.length - n)) (j + (ls.length - n))])
        refine Thinned.trans ?_ ((Thinned.keep hparts).append (Thinned.refl (blockRows r)))
        simpa [Block.rows] using hrest
      · simpa using ih (.same ls i j :: opened)

theorem linesWith_hunkRows (a : Action) (hs : List (List Block)) :
    linesWith a (hs.flatMap hunkRows) = linesWith a (hs.flatMap blockRows) := by
  induction hs with
  | nil => rfl
  | cons h hs ih =>
    rw [List.flatMap_cons, List.flatMap_cons, linesWith_append, linesWith_append, ih]
    rfl

theorem linesWith_rows (a : Action) (n : Nat) (s : Script) :
    linesWith a (rows n s) = linesWith a ((hunks n s).flatMap blockRows) := by
  unfold rows
  cases hunks n s with
  | nil => rfl
  | cons h hs => exact linesWith_hunkRows a (h :: hs)

theorem thinned_hunks (n : Nat) (s : Script) :
    Thinned ((hunks n s).flatMap blockRows) (blockRows (blocks s)) :=
  (thinned_cut n [] _).trans ((thinned_trimLast n _).trans (thinned_trimFirst n _))

/-- The lines of a diff are lines of its script. -/
theorem linesWith_rows_sublist (a : Action) (n : Nat) (s : Script) :
    (linesWith a (rows n s)).Sublist (s.linesWith a) := by
  rw [linesWith_rows, ← linesWith_blocks]
  exact (thinned_hunks n s).sublist.filterMap _

/-- A diff shows every line that was deleted or inserted, and in the same order. -/
theorem linesWith_rows_of_ne (ha : a ≠ .keep) (n : Nat) (s : Script) :
    linesWith a (rows n s) = s.linesWith a := by
  rw [linesWith_rows, ← linesWith_blocks]
  exact (thinned_hunks n s).changes a ha

/-- Of the diff of two texts every line has an end. -/
theorem isLine_of_mem_rows {expected actual l : Text}
    (h : .line a l ∈ rows n (script expected actual)) : ∃ b, IsLine b l := by
  have hv := valid_script expected actual
  have hl := (linesWith_rows_sublist a n _).subset (mem_linesWith.2 h)
  obtain ⟨e, he, hl⟩ := List.mem_flatMap.1 hl
  have hview : l ∈ (script expected actual).old ∨ l ∈ (script expected actual).new := by
    have he := (List.mem_filter.1 he).1
    by_cases hi : e.action = .insert
    · exact Or.inr (List.mem_flatMap.2 ⟨e, he, by rwa [Edit.new_of_insert hi]⟩)
    · exact Or.inl (List.mem_flatMap.2 ⟨e, he, by rwa [Edit.old_of_ne hi]⟩)
  rw [hv.old_eq, hv.new_eq] at hview
  rcases hview with h | h
  · exact isLine_of_mem_cutLines (terminated_getLast? expected) l h
  · exact isLine_of_mem_cutLines (terminated_getLast? actual) l h

/-! ### Headers -/

theorem ne_nil_of_mem_cut {h : List Block} (hh : h ∈ cut n opened bs) : h ≠ [] := by
  induction bs generalizing opened with
  | nil =>
    unfold cut at hh
    split at hh
    · exact absurd hh List.not_mem_nil
    · exact absurd hh List.not_mem_nil
    · rename_i hopened _
      rw [List.mem_singleton.1 hh]
      exact List.reverse_ne_nil_iff.2 hopened
  | cons b r ih =>
    cases b with
    | change ds is i j =>
      rw [cut] at hh
      · exact ih hh
      · simp
    | same ls i j =>
      rw [cut] at hh
      split at hh
      · rcases List.mem_cons.1 hh with rfl | hh
        · simp
        · exact ih hh
      · exact ih hh

theorem not_mem_rangeText {c : Char} (hd : c.isDigit = false) (hc : c ≠ ',') (first last : Nat) :
    c ∉ rangeText first last := by
  intro h
  unfold rangeText at h
  dsimp only at h
  split at h
  · exact not_mem_digits hd _ h
  · rcases List.mem_append.1 h with h | h
    · exact not_mem_digits hd _ h
    · exact not_mem_digits hd _ ((List.mem_cons.1 h).resolve_left hc)

theorem isLine_header {hunk : List Block} (h : hunk ≠ []) :
    ∃ b, IsLine ('@' :: '@' :: b) (header hunk) := by
  obtain ⟨b, r, rfl⟩ := List.exists_cons_of_ne_nil h
  obtain ⟨z, hz⟩ : ∃ z, (b :: r).getLast? = some z := ⟨_, List.getLast?_eq_some_getLast h⟩
  refine ⟨" -" ++ rangeText b.oldAt z.oldEnd ++ " +" ++ rangeText b.newAt z.newEnd ++ " @@",
    ?_, ?_, Or.inl ?_⟩
  · simp [not_mem_rangeText]
  · simp [not_mem_rangeText]
  · simp [header, hz]

/-! ## 2. Rows as lines of a text -/

/-- The text of a row without a line feed at its end, and without one return before that. -/
def Row.visible (r : Row) : Text :=
  if r.text.getLast? = some '\n' then dropReturn r.text.dropLast else r.text

/-- The rows that share a line, for every line: a row that does not end in a line feed shares its line
with the row below. -/
def inLines : List Row → List (List Row)
  | [] => []
  | r :: rs =>
    if r.text.getLast? = some '\n' then [r] :: inLines rs
    else match inLines rs with
      | [] => [[r]]
      | l :: ls => (r :: l) :: ls

/-- Whether a row is something, with a line end behind it. -/
def Row.IsWhole (r : Row) : Prop := ∃ b, b ≠ [] ∧ IsLine b r.text

variable {rs : List Row} {r : Row}

theorem Row.visible_of_feed (h : r.text.getLast? = some '\n') :
    r.visible = dropReturn r.text.dropLast := if_pos h

theorem Row.visible_of_not (h : r.text.getLast? ≠ some '\n') : r.visible = r.text := if_neg h

/-- A row shows what stands on its line, and a return behind it where no line feed follows. -/
theorem Row.visible_cases {b : Text} (h : IsLine b r.text) :
    r.text.getLast? = some '\n' ∧ r.visible = b ∨
      r.text.getLast? ≠ some '\n' ∧ r.visible = b ++ ['\r'] := by
  have hreturn : endsInReturn b = false := by
    simp only [endsInReturn, decide_eq_false_iff_not]
    exact fun hr => h.noReturn (List.mem_of_getLast? hr)
  rcases h.ends with ht | ht | ht
  · have hlast : r.text.getLast? = some '\n' := by rw [ht, List.getLast?_concat]
    left
    refine ⟨hlast, ?_⟩
    rw [visible_of_feed hlast, ht, List.dropLast_concat, dropReturn_of_not hreturn]
  · have ht : r.text = (b ++ ['\r']) ++ ['\n'] := by simp [ht]
    have hlast : r.text.getLast? = some '\n' := by rw [ht, List.getLast?_concat]
    left
    refine ⟨hlast, ?_⟩
    rw [visible_of_feed hlast, ht, List.dropLast_concat, dropReturn_append_return]
  · have hlast : r.text.getLast? ≠ some '\n' := by
      rw [ht, List.getLast?_concat]
      decide
    right
    exact ⟨hlast, (visible_of_not hlast).trans ht⟩

theorem Row.IsWhole.visible_ne_nil (h : r.IsWhole) : r.visible ≠ [] := by
  obtain ⟨b, hb, hl⟩ := h
  rcases visible_cases hl with ⟨-, hv⟩ | ⟨-, hv⟩
  · rwa [hv]
  · simp [hv]

theorem head?_text (h : ∀ r ∈ rs, r.IsWhole) : (rs.flatMap Row.text).head? ≠ some '\n' := by
  cases rs with
  | nil => simp
  | cons r rs =>
    obtain ⟨b, hb, hl⟩ := h r List.mem_cons_self
    obtain ⟨c, b, rfl⟩ := List.exists_cons_of_ne_nil hb
    have hc : c ≠ '\n' := fun he => hl.noFeed (he ▸ List.mem_cons_self)
    rcases hl.ends with h | h | h <;> simpa [h] using hc

/-- What the rows on a line show together. -/
def onLine (rs : List Row) : Text := rs.flatMap Row.visible

/-- The lines of the text of rows are what the rows on them show. -/
theorem lines_text (h : ∀ r ∈ rs, r.IsWhole) :
    lines (rs.flatMap Row.text) = (inLines rs).map onLine := by
  induction rs with
  | nil => rfl
  | cons r rs ih =>
    have hrs : ∀ x ∈ rs, x.IsWhole := fun x hx => h x (List.mem_cons_of_mem r hx)
    obtain ⟨b, hb, hl⟩ := h r List.mem_cons_self
    rw [List.flatMap_cons, inLines]
    by_cases hlast : r.text.getLast? = some '\n'
    · have ht : r.text = r.text.dropLast ++ ['\n'] := (List.dropLast_append_getLast? _ hlast).symm
      rw [ht, List.append_assoc, List.singleton_append,
        lines_append_lineFeed_append hl.not_mem_dropLast, ih hrs, ← ht, if_pos hlast, List.map_cons,
        ← Row.visible_of_feed hlast, onLine, List.flatMap_singleton]
    · have ht : r.text = b ++ ['\r'] := by
        rw [← Row.visible_of_not hlast]
        exact ((Row.visible_cases hl).resolve_left fun hf => hlast hf.1).2
      have hp : '\n' ∉ r.text := by simpa [ht] using hl.noFeed
      rw [lines_append hp (by simp [ht]) (head?_text hrs), ih hrs, if_neg hlast,
        ← Row.visible_of_not hlast]
      cases inLines rs with
      | nil => simp [onLine]
      | cons l ls => simp [onLine]

/-- A line begins with a row, which ends in a line feed only if it is alone there. -/
theorem exists_of_mem_inLines {line : List Row} (h : line ∈ inLines rs) :
    ∃ r rest, line = r :: rest ∧ (r.text.getLast? = some '\n' → rest = []) := by
  induction rs with
  | nil => exact absurd h List.not_mem_nil
  | cons r rs ih =>
    rw [inLines] at h
    split at h
    · rcases List.mem_cons.1 h with rfl | h
      · exact ⟨r, [], rfl, fun _ => rfl⟩
      · exact ih h
    · rename_i hlast
      cases hrs : inLines rs with
      | nil =>
        rw [hrs] at h
        exact ⟨r, [], List.mem_singleton.1 h, fun _ => rfl⟩
      | cons l ls =>
        rw [hrs] at h ih
        rcases List.mem_cons.1 h with rfl | h
        · exact ⟨r, l, rfl, fun he => absurd he hlast⟩
        · exact ih (List.mem_cons_of_mem l h)

theorem flatten_inLines (rs : List Row) : (inLines rs).flatten = rs := by
  induction rs with
  | nil => rfl
  | cons r rs ih =>
    rw [inLines]
    split
    · rw [List.flatten_cons, ih]
      rfl
    · cases hrs : inLines rs with
      | nil =>
        rw [hrs] at ih
        rw [← ih]
        rfl
      | cons l ls =>
        rw [hrs] at ih
        rw [← ih]
        rfl

theorem mem_of_mem_inLines {line : List Row} (h : line ∈ inLines rs) (hr : r ∈ line) : r ∈ rs := by
  rw [← flatten_inLines rs]
  exact List.mem_flatten.2 ⟨line, h, hr⟩

/-- Rows that end in line feeds share no line. -/
theorem inLines_of_feeds (h : ∀ r ∈ rs, r.text.getLast? = some '\n') :
    inLines rs = rs.map fun r => [r] := by
  induction rs with
  | nil => rfl
  | cons r rs ih =>
    rw [inLines, if_pos (h r List.mem_cons_self), ih fun x hx => h x (List.mem_cons_of_mem r hx)]
    rfl

/-! ## 3. The rows of two texts -/

variable {expected actual : Text}

theorem exists_line_of_mem_rows (h : r ∈ b.rows) : ∃ a l, r = .line a l := by
  cases b with
  | same ls i j =>
    obtain ⟨l, -, rfl⟩ := List.mem_map.1 h
    exact ⟨_, l, rfl⟩
  | change ds is i j =>
    rcases List.mem_append.1 h with h | h
    · obtain ⟨l, -, rfl⟩ := List.mem_map.1 h
      exact ⟨_, l, rfl⟩
    · obtain ⟨l, -, rfl⟩ := List.mem_map.1 h
      exact ⟨_, l, rfl⟩

theorem mem_rows (h : r ∈ rows n s) : r = .name "--- expected\n" ∨ r = .name "+++ actual\n" ∨
    (∃ hunk ∈ hunks n s, r = .header (header hunk)) ∨ ∃ a l, r = .line a l := by
  unfold rows at h
  split at h
  · exact absurd h List.not_mem_nil
  · rcases List.mem_cons.1 h with h | h
    · exact Or.inl h
    · rcases List.mem_cons.1 h with h | h
      · exact Or.inr (Or.inl h)
      · obtain ⟨hunk, hh, h⟩ := List.mem_flatMap.1 h
        rcases List.mem_cons.1 h with h | h
        · exact Or.inr (Or.inr (Or.inl ⟨hunk, hh, h⟩))
        · obtain ⟨b, -, h⟩ := List.mem_flatMap.1 h
          exact Or.inr (Or.inr (Or.inr (exists_line_of_mem_rows h)))

/-- Every row of the diff of two texts has a line end at its end. -/
theorem isWhole_of_mem_rows (h : r ∈ rows n (script expected actual)) : r.IsWhole := by
  rcases mem_rows h with rfl | rfl | ⟨hunk, hh, rfl⟩ | ⟨a, l, rfl⟩
  · exact ⟨"--- expected", by decide, by decide, by decide, Or.inl rfl⟩
  · exact ⟨"+++ actual", by decide, by decide, by decide, Or.inl rfl⟩
  · obtain ⟨b, hb⟩ := isLine_header (ne_nil_of_mem_cut hh)
    exact ⟨_, List.cons_ne_nil _ _, hb⟩
  · obtain ⟨b, hb⟩ := isLine_of_mem_rows h
    exact ⟨a.sign :: b, List.cons_ne_nil _ _, hb.cons (by cases a <;> decide)⟩

end Baselines.Diff
